import Tenure.Proofs.Lease.Sessions

/-!
# Lazy expiry refines prompt expiry

The store leaves a row behind when its lease runs out and looks at the deadline when it is asked. A
prompt store deletes the row at that instant and never looks at a deadline again.

- **The prompt store** (`Prompt`): its rows are the ones that count, so its answers read off which
  rows there are.
- **The simulation** (`Session.Tracks`, `tracks_run`): the prompt store has a row iff the store has
  it and it is live; both have given out the same revisions.
- **Agreement** (`Session.Agrees`, `agrees_run`): both stores answer every call alike, but for the
  renewal of a row whose lease ran out (`Session.Lapsed`): the store still has it and says so.
-/

namespace Tenure.Lease

namespace Store

theorem live?_eq_none {s : Store} {now : Nat} {key : String} {row : Row}
    (present : s.rows.get? key = some row) (lapsed : row.deadline ≤ now) :
    s.live? now key = none := by
  rw [live?, present, Option.filter_eq_none_iff]
  intro r hr
  cases hr
  simpa [Row.isLive] using lapsed

end Store

/-! ## The prompt store -/

/-- A store that deletes every row at its deadline. -/
structure Prompt where
  /-- The rows. -/
  rows : String → Option Row := fun _ => none
  /-- The last revision that was given out. -/
  issued : Nat := 0
  /-- Whether writes are answered. -/
  available : Bool := true

namespace Prompt

/-- Deletes the rows whose deadline has come. -/
def sweep (p : Prompt) (now : Nat) : Prompt :=
  { p with rows := fun key => (p.rows key).filter fun row => now < row.deadline }

/-- Puts a row under a key, or deletes the one that is there. -/
def set (p : Prompt) (key : String) (row? : Option Row) : Prompt :=
  { p with rows := fun k => if key = k then row? else p.rows k }

/-- Writes a key, whatever is there. A lease of no length is over at once. -/
def write (p : Prompt) (now : Nat) (key : String) (value : Bytes) (ttl : Duration) :
    Prompt × Reply :=
  let revision := p.issued + 1
  (({ p with issued := revision }.set key (some ⟨value, revision, now + ttl.nanos⟩)).sweep now,
    .granted revision)

/-- What a call does to the store and what it returns. -/
def answer (p : Prompt) (now : Nat) : Operation → Prompt × Reply
  | .create key value ttl =>
    if !p.available then (p, .refused Store.offline)
    else match p.rows key with
      | some _ => (p, .refused (.conflict key))
      | none => p.write now key value ttl
  | .update key value expected ttl =>
    if !p.available then (p, .refused Store.offline)
    else match p.rows key with
      | none => (p, .refused (.conflict key))
      | some row =>
        if row.revision = expected then p.write now key value ttl
        else (p, .refused (.conflict key))
  | .get key => (p, .shown ((p.rows key).map fun row => (row.value, row.revision)))
  | .expire key => (p.set key none, .done)
  | .setAvailable available => ({ p with available := available }, .done)
  | .advance nanos => (p.sweep (now + nanos), .done)

/-- What a call returns. -/
def reply (p : Prompt) (now : Nat) (op : Operation) : Reply := (p.answer now op).2

/-- Makes calls one after another. -/
def run (p : Prompt) (now : Nat) : List Operation → Prompt
  | [] => p
  | op :: ops => (p.answer now op).1.run (now + op.wait) ops

end Prompt

namespace Session

variable {s : Session} {p : Prompt} {op : Operation}

/-! ## The simulation -/

/-- The prompt store has the live rows and has given out the same revisions. -/
structure Tracks (s : Session) (p : Prompt) : Prop where
  rows : ∀ key, p.rows key = s.store.live? s.now key
  issued : p.issued = s.store.issued
  available : p.available = s.store.available

theorem Tracks.congr {s' : Session} (h : s.Tracks p) (hnow : s'.now = s.now)
    (hstore : s'.store = s.store) : s'.Tracks p :=
  ⟨by rw [hnow, hstore]; exact h.rows, by rw [hstore]; exact h.issued,
    by rw [hstore]; exact h.available⟩

/-- Both stores do the same write. -/
theorem Tracks.write (h : s.Tracks p) (key : String) (value : Bytes) (ttl : Duration) :
    Tracks { s with store := s.store.advance.put key (s.next value ttl) }
      (p.write s.now key value ttl).1 where
  rows k := by
    simp only [Prompt.write, Prompt.sweep, Prompt.set, h.rows, h.issued, Store.live?,
      Store.get?_rows_put, Store.rows_advance, next]
    split
    · rfl
    · -- no live row goes
      rw [Option.filter_filter]
      simp [Row.isLive]
  issued := by simp [Prompt.write, Prompt.sweep, Prompt.set, h.issued]
  available := h.available

/-- The call is a renewal, while the store is available, of a key whose last write had a lease that
ran out and that nobody ended. -/
def Lapsed (s : Session) : Operation → Prop
  | .update key _ _ _ =>
    s.store.available = true ∧ ∃ row, standing? key s.calls = some row ∧ row.deadline ≤ s.now
  | _ => False

theorem Tracks.stay (h : s.Tracks p) (hw : op.wait = 0) (hs : (s.answer op).1 = s.store)
    (hp : (p.answer s.now op).1 = p) : (s.make op).Tracks (p.answer s.now op).1 := by
  rw [hp]
  exact h.congr (by rw [Session.make, hw, Nat.add_zero]) hs

/-- Both stores refuse. -/
theorem Tracks.refuse (h : s.Tracks p) {e : StoreError} (hw : op.wait = 0)
    (hs : s.answer op = (s.store, .refused e)) (hp : p.answer s.now op = (p, .refused e)) :
    (s.make op).Tracks (p.answer s.now op).1 ∧ s.reply op = p.reply s.now op := by
  refine ⟨h.stay hw (by rw [hs]) (by rw [hp]), ?_⟩
  rw [reply, hs, Prompt.reply, hp]

/-- Both stores grant a write. -/
theorem Tracks.grant (h : s.Tracks p) {key : String} {value : Bytes} {ttl : Duration}
    (hw : op.wait = 0) (hs : s.answer op =
      (s.store.advance.put key (s.next value ttl), .granted (s.store.issued + 1)))
    (hp : p.answer s.now op = p.write s.now key value ttl) :
    (s.make op).Tracks (p.answer s.now op).1 ∧ s.reply op = p.reply s.now op := by
  constructor
  · rw [hp]
    exact (h.write key value ttl).congr (by rw [Session.make, hw, Nat.add_zero])
      (congrArg Prod.fst hs)
  · rw [reply, hs, Prompt.reply, hp, Prompt.write, h.issued]

/-- Both stores stay on the same track and answer alike, whatever is called. -/
theorem Tracks.make (h : s.Tracks p) (kept : s.Kept) (whole : s.reply op ≠ .refused .beyondClock) :
    (s.make op).Tracks (p.answer s.now op).1 ∧
      (¬ s.Lapsed op → s.reply op = p.reply s.now op) := by
  have always (both : (s.make op).Tracks (p.answer s.now op).1 ∧ s.reply op = p.reply s.now op) :
      (s.make op).Tracks (p.answer s.now op).1 ∧
        (¬ s.Lapsed op → s.reply op = p.reply s.now op) := ⟨both.1, fun _ => both.2⟩
  have hmade := made whole
  generalize ha : s.answer op = a at hmade
  have hstore : (s.make op).store = a.1 := congrArg Prod.fst ha
  have hreply : s.reply op = a.2 := congrArg Prod.snd ha
  cases hmade with
  | offline write unavailable =>
    cases op with
    | create | update =>
      exact always (h.refuse rfl ha (by simp [Prompt.answer, h.available, unavailable]))
    | _ => cases write
  | taken available live =>
    exact always (h.refuse rfl ha
      (by simp [Prompt.answer, h.available, available, h.rows, live]))
  | created available vacant =>
    exact always (h.grant rfl ha
      (by simp [Prompt.answer, h.available, available, h.rows, vacant]))
  | missing available missing =>
    exact always (h.refuse rfl ha
      (by simp [Prompt.answer, h.available, available, h.rows, Store.live?, missing]))
  | superseded available live revision =>
    exact always (h.refuse rfl ha
      (by simp [Prompt.answer, h.available, available, h.rows, live, revision]))
  | updated available live revision =>
    exact always (h.grant rfl ha
      (by simp [Prompt.answer, h.available, available, h.rows, live, revision]))
  | @lapsed key _ _ _ row available present lapsed =>
    have gone : p.rows key = none := by rw [h.rows, Store.live?_eq_none present lapsed]
    refine ⟨h.stay rfl (by rw [ha]) ?_, fun hnot => absurd ⟨available, row, ?_, lapsed⟩ hnot⟩
    · simp [Prompt.answer, h.available, available, gone]
    · rw [← kept.rows, present]
  | read =>
    refine ⟨h.stay rfl (by rw [ha]) rfl, fun _ => ?_⟩
    simp only [hreply, Prompt.reply, Prompt.answer, h.rows, Store.get?]
  | ended =>
    refine ⟨⟨fun k => ?_, by rw [hstore]; exact h.issued, by rw [hstore]; exact h.available⟩,
      fun _ => hreply⟩
    simp only [hstore, Prompt.answer, Prompt.set, h.rows, Store.live?, Store.get?_rows_expire]
    split <;> rfl
  | switched =>
    exact ⟨⟨by rw [hstore]; exact h.rows, by rw [hstore]; exact h.issued, by rw [hstore]; rfl⟩,
      fun _ => hreply⟩
  | waited =>
    refine ⟨⟨fun k => ?_, by rw [hstore]; exact h.issued, by rw [hstore]; exact h.available⟩,
      fun _ => hreply⟩
    simp only [hstore, Prompt.answer, Prompt.sweep, h.rows, Store.live?, Option.filter_filter]
    refine congrArg (fun f => Option.filter f _) (funext fun row => ?_)
    -- a row that is live later is live now
    simp only [Row.isLive, Session.make, Operation.wait, ← Bool.decide_and]
    exact decide_eq_decide.2 ⟨fun hl => hl.2, fun hl => ⟨by omega, hl⟩⟩

theorem tracks_run {ops : List Operation} (whole : (s.run ops).Whole) (kept : s.Kept)
    (h : s.Tracks p) : (s.run ops).Tracks (p.run s.now ops) := by
  induction ops generalizing s p with
  | nil => exact h
  | cons op ops ih =>
    have first := whole _ (calls_subset_run (s.make op) ops (List.mem_cons_self ..))
    exact ih whole (kept.make first) (h.make kept first).1

/-- The store still has the row that the prompt store deleted. -/
theorem Tracks.reply_of_lapsed (h : s.Tracks p) (kept : s.Kept) {key : String} {value : Bytes}
    {expected : Nat} {ttl : Duration} (lapsed : s.Lapsed (.update key value expected ttl)) :
    s.reply (.update key value expected ttl) = .refused (.expired key) ∧
      p.reply s.now (.update key value expected ttl) = .refused (.conflict key) := by
  obtain ⟨available, row, stands, hdead⟩ := lapsed
  have present : s.store.rows.get? key = some row := by rw [kept.rows, stands]
  have dead : row.isLive s.now = false := by simpa [Row.isLive] using hdead
  have gone : p.rows key = none := by rw [h.rows, Store.live?_eq_none present hdead]
  constructor
  · simp [reply, answer, Store.update, available, present, dead, Reply.ofAnswer]
  · simp [Prompt.reply, Prompt.answer, h.available, available, gone]

/-! ## Agreement -/

/-- A refused call changes nothing. -/
theorem store_make_of_refused {e : StoreError} (h : s.reply op = .refused e)
    (whole : e ≠ .beyondClock) : (s.make op).store = s.store := by
  have hmade := @made s op (by rw [h]; exact fun heq => whole (by cases heq; rfl))
  generalize ha : s.answer op = a at hmade
  have hstore : (s.make op).store = a.1 := congrArg Prod.fst ha
  have hreply : a.2 = .refused e := (congrArg Prod.snd ha).symm.trans h
  cases hmade with
  | created | updated | ended | switched => cases hreply
  | _ => exact hstore

/-- A call leaves the rows of other keys as they are. -/
theorem get?_rows_make_of_ne {key : String} (h : op.key? ≠ some key) :
    (s.make op).store.rows.get? key = s.store.rows.get? key := by
  cases op with
  | create k value ttl =>
    exact Store.get?_rows_create_of_ne s.store s.now value ttl fun he => h (by rw [he]; rfl)
  | update k value expected ttl =>
    exact Store.get?_rows_update_of_ne s.store s.now value expected ttl
      fun he => h (by rw [he]; rfl)
  | expire k =>
    simp only [make, answer, Store.get?_rows_expire]
    exact if_neg fun he => h (by rw [he]; rfl)
  | get | setAvailable | advance => rfl

/-- A store that leaves rows behind and one that deletes them answer a call alike. -/
structure Agrees (s : Session) (p : Prompt) (op : Operation) : Prop where
  /-- Both return the same, -/
  same : ¬ s.Lapsed op → s.reply op = p.reply s.now op
  /-- but for the renewal of a row whose lease ran out; either way it is contention. -/
  lapsed : s.Lapsed op → ∃ e e', s.reply op = .refused e ∧ p.reply s.now op = .refused e' ∧
    (∃ key, op.key? = some key ∧ e = .expired key ∧ e' = .conflict key) ∧
    e.isContention = true ∧ e'.isContention = true
  /-- What a key shows is the last granted write, if nobody ended its lease, up to its deadline. -/
  shows : ∀ {key value revision}, s.store.get? s.now key = some (value, revision) ↔
    ∃ row, standing? key s.calls = some row ∧ s.now < row.deadline ∧
      row.value = value ∧ row.revision = revision
  /-- A key is written iff it shows nothing. -/
  creates : ∀ {key value ttl}, op = .create key value ttl →
    ((∃ revision, s.reply op = .granted revision) ↔
      s.store.available = true ∧ s.store.get? s.now key = none)
  /-- A row is replaced iff the key shows the expected revision. -/
  updates : ∀ {key value expected ttl}, op = .update key value expected ttl →
    ((∃ revision, s.reply op = .granted revision) ↔
      s.store.available = true ∧ ∃ shown, s.store.get? s.now key = some (shown, expected))
  /-- A refused call changes nothing: no row and no revision. -/
  refused : ∀ {e}, s.reply op = .refused e → (s.make op).store = s.store
  /-- A call on one key leaves every other as it is, at any instant. -/
  apart : ∀ {key} instant, op.key? ≠ some key →
    (s.make op).store.live? instant key = s.store.live? instant key

theorem Tracks.agrees (h : s.Tracks p) (kept : s.Kept)
    (whole : s.reply op ≠ .refused .beyondClock) : s.Agrees p op where
  same := (h.make kept whole).2
  lapsed hl := by
    cases op with
    | update key value expected ttl =>
      obtain ⟨hs, hp⟩ := h.reply_of_lapsed kept hl
      exact ⟨_, _, hs, hp, ⟨key, rfl, rfl, rfl⟩, rfl, rfl⟩
    | _ => exact hl.elim
  shows {key value revision} := by
    simp only [Store.get?, Option.map_eq_some_iff, Store.live?_eq_some_iff, kept.rows,
      Prod.mk.injEq, and_assoc]
  creates hop := by
    subst hop
    rw [granted_create_iff whole, Store.get?, Option.map_eq_none_iff]
  updates hop := by
    subst hop
    rw [granted_update_iff whole]
    simp only [Store.get?, Option.map_eq_some_iff, Prod.mk.injEq]
    refine and_congr_right fun _ => ⟨?_, ?_⟩
    · rintro ⟨row, live, revision⟩
      exact ⟨row.value, row, live, rfl, revision⟩
    · rintro ⟨_, row, live, _, revision⟩
      exact ⟨row, live, revision⟩
  refused {e} hr := store_make_of_refused hr fun he => whole (by rw [hr, he])
  apart instant hk := by
    simp only [Store.live?, get?_rows_make_of_ne hk]

theorem fit_append {now : Nat} {first second : List Operation} (h : Fit now (first ++ second)) :
    Fit now first := by
  induction first generalizing now with
  | nil => trivial
  | cons op ops ih => exact ⟨h.1, ih h.2⟩

/-- Every call of a session with a store that was empty at first, in which every lease would end
within the range of the clock. -/
theorem agrees_run (now : Nat) (ops : List Operation) (op : Operation)
    (fit : Fit now (ops ++ [op])) :
    (run ⟨now, {}, []⟩ ops).Agrees (Prompt.run {} now ops) op := by
  have all : (run ⟨now, {}, []⟩ (ops ++ [op])).Whole :=
    whole_of_fit fit fun c hc => absurd hc (List.not_mem_nil)
  have whole : (run ⟨now, {}, []⟩ ops).Whole :=
    whole_of_fit (fit_append fit) fun c hc => absurd hc (List.not_mem_nil)
  have last : (run ⟨now, {}, []⟩ ops).reply op ≠ .refused .beyondClock := by
    rw [run_append] at all
    exact all _ (List.mem_cons_self ..)
  have kept := kept_run now whole
  exact (tracks_run whole ⟨fun _ => rfl, rfl⟩ ⟨fun _ => rfl, rfl, rfl⟩).agrees kept last

/-- A key is written for a while, its lease runs out, and it is written again for no time. -/
def lapsing : List Operation :=
  [.create "k" [] ⟨1000, by decide⟩, .create "l" [] .zero, .advance 1000, .setAvailable false,
    .create "k" [] .zero, .setAvailable true]

theorem agrees_lapsing :
    Fit 0 (lapsing ++ [.update "k" [] 1 .zero]) ∧
      (run ⟨0, {}, []⟩ lapsing).Agrees (Prompt.run {} 0 lapsing) (.update "k" [] 1 .zero) ∧
      (run ⟨0, {}, []⟩ lapsing).reply (.update "k" [] 1 .zero) = .refused (.expired "k") :=
  ⟨by decide +kernel, agrees_run 0 lapsing _ (by decide +kernel), by decide +kernel⟩

end Session

end Tenure.Lease
