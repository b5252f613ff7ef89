import Tenure.World.Basic

/-!
# Contenders at work

A call of a contender's `run` goes on from one point where it waits to the next. It first looks
whether it has been cancelled; if so it leaves the loop and gives up its standing, and a call on
the store that was on its way never acts.
-/

namespace Tenure.World

open Election

/-- Lets the gate of a publisher hear of a campaign. A win opens it and a loss closes it; after each
campaign the subjects count as active iff the contender is leader. -/
def hearAtGate (w : World) (id : String) (n : Note) : World :=
  match w.publishers.get? id with
  | none => w
  | some p =>
    match n with
    | .won _ =>
      (w.modifyPublisher id fun p => { p with paused := false }).modifyMetrics
        (·.setFlag (.paused p.replicator) false)
    | .lost _ =>
      (w.modifyPublisher id fun p => { p with paused := true }).modifyMetrics
        (·.setFlag (.paused p.replicator) true)
    | .campaigned _ standing _ =>
      w.modifyMetrics fun m => p.subjects.foldl
        (fun m s => m.setFlag (.subjectActive p.replicator s) standing.isLeader) m
    | _ => w

/-- Records a call of a contender, and lets the gate hear of it if it has one. -/
def hear (c : Candidacy) (id : String) (w : World) (n : Note) : World :=
  let w := w.note id n
  if c.audience = .gate then w.hearAtGate id n else w

/-- Counts a campaign and shows its standing. -/
def countCampaign (w : World) (c : Candidacy) (standing : Standing) : World :=
  w.modifyMetrics fun m =>
    (m.increment (.campaigns c.replicator c.name standing)).setFlag (.leader c.replicator c.name)
      standing.isLeader

/-- Begins the wait for the next campaign. -/
def beginWait (w : World) (id : String) (i : Nat) (interval : Duration) (wait : Wait)
    (draw : Nat) : World :=
  match wait with
  | .plain => w.modifyContender id (·.setPhase i (.waiting (Clock.wake w.now interval.nanos)))
  | .backoff strategy failures =>
    match strategy.next failures draw with
    | .ok d =>
      (w.note id (.backedOff failures d)).modifyContender id
        (·.setPhase i (.waiting (Clock.wake w.now d.nanos)))
    | .error _ => w.modifyContender id (·.setPhase i .broken)

/-- Concludes the campaign of the `i`-th call of `run` and begins the wait for the next one. -/
def concludeRun (w : World) (id : String) (i : Nat) (c : Contender) (r : Run)
    (answer? : Option Answer) (draw : Nat) : World :=
  let e := conclude c.candidacy.backoff? c.standing r.ledger answer?
  let w := w.modifyContender id (·.settle i e)
  let w := e.notes.foldl (hear c.candidacy id) w
  let w := w.countCampaign c.candidacy e.standing
  w.beginWait id i c.candidacy.interval e.wait draw

/-- A call on the store acts. -/
def perform (s : Lease.Store) (now : Nat) (c : Candidacy) : Request → Lease.Store × Answer
  | .acquire => s.create now c.key (utf8 c.identity) c.ttl
  | .renew revision => s.update now c.key (utf8 c.identity) revision c.ttl

/-- The call of the `i`-th call of `run` acts and the campaign ends. -/
def actOnStore (w : World) (id : String) (i : Nat) (c : Contender) (r : Run) (q : Request)
    (draw : Nat) : World :=
  let (store, answer) := perform (w.bucket c.candidacy.bucket).store w.now c.candidacy q
  let w := w.setStore c.candidacy.bucket store
  if answer = .error .beyondClock then w.modifyContender id (·.setPhase i .broken)
  else (w.note id (.answered q answer)).concludeRun id i c r (some answer) draw

/-- Begins a campaign. A delay of the store holds its call back. -/
def campaign (w : World) (id : String) (i : Nat) (c : Contender) (r : Run) (draw : Nat) : World :=
  match request? c.standing r.ledger with
  | none => w.concludeRun id i c r none draw
  | some q =>
    let w := w.note id (.asked q)
    let delay := (w.bucket c.candidacy.bucket).delay
    if delay = 0 then w.actOnStore id i c r q draw
    else w.modifyContender id (·.setPhase i (.calling q w.now (Clock.wake w.now delay)))

/-- Leaves the loop of a cancelled call. -/
def leaveRun (w : World) (id : String) (i : Nat) (c : Candidacy) : World :=
  (w.modifyContender id (·.leave i)).modifyMetrics
    (·.setFlag (.leader c.replicator c.name) false)

/-- Takes the loop for a call that begins with a clean ledger. -/
def enterRun (w : World) (id : String) (i : Nat) : World :=
  w.modifyContender id fun c =>
    { c.modifyRun i fun r => { r with ledger := {} } with looping := true }

/-- Lets the `i`-th call of `run` go on. -/
def pollRun (w : World) (id : String) (i : Nat) (draw : Nat) : World :=
  match w.contenders.get? id with
  | none => w
  | some c =>
    match c.runs[i]? with
    | none => w
    | some r =>
      match r.phase with
      | .fresh =>
        if c.looping then w.modifyContender id (·.setPhase i .over)
        else
          let w := w.enterRun id i
          if r.cancelled then w.leaveRun id i c.candidacy
          else w.campaign id i c { r with ledger := {} } draw
      | .calling q _ due =>
        if r.cancelled then w.leaveRun id i c.candidacy
        else if Clock.hasFired w.now due then w.actOnStore id i c r q draw
        else w
      | .waiting due =>
        if r.cancelled then w.leaveRun id i c.candidacy
        else if Clock.hasFired w.now due then w.campaign id i c r draw
        else w
      | .over | .broken => w

end Tenure.World
