import Mathlib.Logic.Equiv.Basic
import Tenure.Proofs.World.Abreast

/-!
# Isolated elections

- **Storage keys** (`storageKey_inj`, `Candidacy.Apart`): names without a point can be told from
  the keys behind them, so different elections of such names contend for different rows.
- **Without the other** (`without`): the course on which a contender is never started, with other
  numbers for the revisions that outsiders name.
- **Shadows** (`Shadow`, `exists_shadow`): the course without the other leads to a world that
  looks alike. Which numbers it has is settled along the way, one revision after the other.
- **Isolation** (`Isolated`, `isolated`): contenders for different rows leave each other alone. A
  point in a name can make two elections one (`merges_at_point`).
-/

namespace Tenure

open Election Lease

/-! ## Storage keys -/

namespace Election

/-- A name without a point can be told from the key behind it. -/
theorem storageKey_inj {n n' k k' : String} (hn : '.' ∉ n.toList) (hn' : '.' ∉ n'.toList)
    (h : storageKey n k = storageKey n' k') : n = n' ∧ k = k' := by
  have cut {n : List Char} (hn : '.' ∉ n) (k : List Char) :
      (n ++ '.' :: k).takeWhile (· ≠ '.') = n := by
    rw [List.takeWhile_append_of_pos fun c hc => by
      simp only [ne_eq, decide_not, Bool.not_eq_true', decide_eq_false_iff_not]
      rintro rfl
      exact hn hc]
    simp
  have chars : n.toList ++ '.' :: k.toList = n'.toList ++ '.' :: k'.toList := by
    have := congrArg String.toList h
    simpa [storageKey, String.toList_append] using this
  have names : n.toList = n'.toList := by rw [← cut hn k.toList, chars, cut hn']
  rw [names] at chars
  exact ⟨String.toList_inj.1 names,
    String.toList_inj.1 (List.cons.inj (List.append_cancel_left chars)).2⟩

/-- The key of the store is one within the election's name. -/
def Candidacy.Scoped (y : Candidacy) : Prop := ∃ k, y.key = storageKey y.name k

theorem Candidacy.scoped_of_ofOptions {o : Options} {host nonce : String} {y : Candidacy}
    (h : Candidacy.ofOptions o host nonce = .ok y) : y.Scoped := by
  obtain ⟨bucket, -, rfl, -⟩ := Candidacy.eq_of_ofOptions h
  exact ⟨o.key, rfl⟩

/-- The elections differ, and so do their rows unless a name has a point. (With the name, the key of
the store says for what a contender contends.) -/
def Candidacy.Apart (y z : Candidacy) : Prop :=
  (y.name, y.key) ≠ (z.name, z.key) ∧
    (y.key ≠ z.key ∨ ('.' ∉ y.name.toList ∧ '.' ∉ z.name.toList))

theorem Candidacy.Apart.key_ne {y z : Candidacy} (h : y.Apart z) (hy : y.Scoped) (hz : z.Scoped) :
    y.key ≠ z.key := by
  obtain ⟨differ, rows | ⟨plain, plain'⟩⟩ := h
  · exact rows
  · obtain ⟨k, hk⟩ := hy
    obtain ⟨k', hk'⟩ := hz
    intro heq
    have names := (storageKey_inj plain plain' (hk ▸ hk' ▸ heq)).1
    exact differ (Prod.ext names heq)

end Election

namespace World

/-- A contender comes in on options, its own or those of its publisher. -/
theorem Enrols.exists_options {w : World} {m : Move} {id : String} {y : Candidacy}
    (h : Enrols w m id y) : ∃ o, Candidacy.ofOptions o w.host w.nonce = .ok y := by
  cases h with
  | contender accepted => exact ⟨_, accepted⟩
  | publisher accepted =>
    obtain ⟨-, o, -, terms⟩ := Publisher.exists_options accepted
    exact ⟨o, terms⟩

theorem scoped_follow (host : String) (wall : Int) (now : Nat) (course : List Move) {id : String}
    {c : Contender} (hc : ((fresh host wall now).follow course).contenders.get? id = some c) :
    c.candidacy.Scoped := by
  refine follow_induct (I := fun w => ∀ c, w.contenders.get? id = some c → c.candidacy.Scoped)
    course (fun _ h => by cases h) (fun w m ih c' hc' => ?_) c hc
  cases became hc' with
  | opened enrols _ new _ =>
    obtain ⟨o, accepted⟩ := enrols.exists_options
    exact new ▸ Candidacy.scoped_of_ofOptions accepted
  | aside was _ _ | turn _ was _ _ _ => exact candidacy_move was hc' ▸ ih _ was

/-! ## Without the other -/

/-- The course on which `id` is never started, with other numbers for the revisions of a key. -/
def without (id : String) (ρ : Nat → Nat) (bucket key : String) (course : List Move) : List Move :=
  (course.filter fun m => !m.starts id).map (·.renumber ρ bucket key)

section

variable {bucket key b : String} {start v : World} {course : List Move} {m : Move}
  {known : Nat → Prop} {σ : Equiv.Perm Nat}

theorem without_concat (b : String) (ρ : Nat → Nat) (bucket key : String) (course : List Move)
    (m : Move) : without b ρ bucket key (course ++ [m]) =
      without b ρ bucket key course ++
        if m.starts b = true then [] else [m.renumber ρ bucket key] := by
  rw [without, List.filter_append, List.map_append, ← without, List.append_cancel_left_eq]
  cases hm : m.starts b <;> simp [hm]

/-- Who contends for something else has done so before. -/
theorem Strays.of_follow {w : World} {id : String} (h : (w.follow course).Strays bucket key id) :
    w.Strays bucket key id := by
  induction course generalizing w with
  | nil => exact h
  | cons m course ih =>
    intro c hc
    obtain ⟨c', hc'⟩ := exists_contender_move hc m
    exact candidacy_move hc hc' ▸ ih h c' hc'

/-- The course without `b` leads to a world that looks alike, at each point of the way and whatever
the numbers of revisions that are not known yet. -/
structure Shadow (bucket key b : String) (start : World) (course : List Move) (known : Nat → Prop)
    (σ : Equiv.Perm Nat) (v : World) : Prop where
  issued : ∀ r, known r → r ≤ ((start.follow course).bucket bucket).store.issued ∧
    σ r ≤ (v.bucket bucket).store.issued
  follows : ∀ ρ : Equiv.Perm Nat, (∀ r, known r → ρ r = σ r) →
    start.follow (without b ρ bucket key course) = v
  alike : ∀ ρ : Equiv.Perm Nat, (∀ r, known r → ρ r = σ r) → ∀ before, before <+: course →
    Alike ρ bucket key b (start.follow before) (start.follow (without b ρ bucket key before))

namespace Shadow

theorem fresh (bucket key b host : String) (wall : Int) (now : Nat) :
    Shadow bucket key b (World.fresh host wall now) [] (fun _ => False) (.refl _)
      (World.fresh host wall now) where
  issued _ hr := hr.elim
  follows _ _ := rfl
  alike _ _ before h := by
    obtain rfl := List.prefix_nil.1 h
    exact .fresh ..

theorem last (h : Shadow bucket key b start course known σ v) {ρ : Equiv.Perm Nat}
    (agrees : ∀ r, known r → ρ r = σ r) : Alike ρ bucket key b (start.follow course) v :=
  h.follows ρ agrees ▸ h.alike ρ agrees course List.prefix_rfl

/-- A shadow goes on with more numbers known. -/
theorem concat (h : Shadow bucket key b start course known σ v) {known' : Nat → Prop}
    {σ' : Equiv.Perm Nat} {v' : World} (more : ∀ r, known r → known' r ∧ σ' r = σ r)
    (issued : ∀ r, known' r →
      r ≤ ((start.follow (course ++ [m])).bucket bucket).store.issued ∧
        σ' r ≤ (v'.bucket bucket).store.issued)
    (step : ∀ ρ : Equiv.Perm Nat, (∀ r, known' r → ρ r = σ' r) → (∀ r, known r → ρ r = σ r) →
      start.follow (without b ρ bucket key (course ++ [m])) = v' ∧
        Alike ρ bucket key b ((start.follow course).move m) v') :
    Shadow bucket key b start (course ++ [m]) known' σ' v' := by
  have earlier {ρ : Equiv.Perm Nat} (agrees : ∀ r, known' r → ρ r = σ' r) (r : Nat)
      (hr : known r) : ρ r = σ r := (agrees r (more r hr).1).trans (more r hr).2
  refine ⟨issued, fun ρ agrees => (step ρ agrees (earlier agrees)).1,
    fun ρ agrees before hbefore => ?_⟩
  rcases List.prefix_concat_iff.1 hbefore with rfl | hbefore
  · obtain ⟨hv, alike⟩ := step ρ agrees (earlier agrees)
    rwa [hv, follow_concat]
  · exact h.alike ρ (earlier agrees) before hbefore

theorem known_move (h : Shadow bucket key b start course known σ v) (m m' : Move) {r : Nat}
    (hr : known r) :
    r ≤ ((start.follow (course ++ [m])).bucket bucket).store.issued ∧
      σ r ≤ ((v.move m').bucket bucket).store.issued := by
  rw [follow_concat]
  exact ⟨Nat.le_trans (h.issued r hr).1 (later_move _ m bucket).issued_le,
    Nat.le_trans (h.issued r hr).2 (later_move v m' bucket).issued_le⟩

theorem starts (h : Shadow bucket key b start course known σ v)
    (hb : (start.follow course).Strays bucket key b) (starts : m.starts b = true) :
    Shadow bucket key b start (course ++ [m]) known σ v := by
  refine h.concat (fun r hr => ⟨hr, rfl⟩)
    (fun r hr => ⟨(h.known_move m m hr).1, (h.issued r hr).2⟩) fun ρ agrees _ => ?_
  rw [without_concat, if_pos starts, List.append_nil]
  exact ⟨h.follows ρ agrees, (h.last agrees).both (aloof_of_starts hb starts) (.refl ..)⟩

theorem idles (h : Shadow bucket key b start course known σ v)
    (hb : (start.follow course).Strays bucket key b) (starts : m.starts b = false)
    (idle : ¬ (start.follow course).Acts bucket key m) :
    Shadow bucket key b start (course ++ [m]) known σ (v.move m) := by
  refine h.concat (fun r hr => ⟨hr, rfl⟩) (fun r hr => h.known_move m m hr) fun ρ agrees _ => ?_
  rw [without_concat, starts, if_neg Bool.false_ne_true, renumber_of_idle idle, follow_concat,
    h.follows ρ agrees]
  exact ⟨rfl, (h.last agrees).idles hb starts idle⟩

/-- The next revision can be given the next number, which is not in the way of those known. -/
theorem exists_number {known : Nat → Prop} {σ : Equiv.Perm Nat} {n n' : Nat}
    (issued : ∀ r, known r → r ≤ n ∧ σ r ≤ n') :
    ∃ σ' : Equiv.Perm Nat, (∀ r, known r → σ' r = σ r) ∧ σ' (n + 1) = n' + 1 := by
  refine ⟨σ.trans (.swap (σ (n + 1)) (n' + 1)), fun r hr => ?_, Equiv.swap_apply_left ..⟩
  obtain ⟨le, le'⟩ := issued r hr
  refine Equiv.swap_apply_of_ne_of_ne (fun heq => ?_) (by omega)
  have := σ.injective heq
  omega

/-- The revision that a write takes gets the number of the one that it takes in the shadow. What is
known of the numbers stays. -/
theorem acts (h : Shadow bucket key b start course known σ v) (starts : m.starts b = false)
    (acts : (start.follow course).Acts bucket key m) : ∃ known' σ',
      Shadow bucket key b start (course ++ [m]) known' σ' (v.move (m.renumber σ bucket key)) := by
  have step (ρ : Equiv.Perm Nat) (agrees : ∀ r, known r → ρ r = σ r) :
      start.follow (without b ρ bucket key (course ++ [m])) = v.move (m.renumber σ bucket key) ∧
        InStep ρ bucket key b (start.follow course) v ((start.follow course).move m)
          (v.move (m.renumber σ bucket key)) := by
    have same := (h.last agrees).move_renumber ρ.injective σ.injective
      (h.last fun _ _ => rfl) m
    rw [without_concat, starts, if_neg Bool.false_ne_true, follow_concat, h.follows ρ agrees,
      ← same]
    exact ⟨rfl, (h.last agrees).acts ρ.injective acts⟩
  generalize hn : ((start.follow course).bucket bucket).store.issued = n at step
  generalize hn' : (v.bucket bucket).store.issued = n'
  by_cases none : (((start.follow course).move m).bucket bucket).store.issued = n
  · refine ⟨known, σ, h.concat (fun r hr => ⟨hr, rfl⟩) (fun r hr => h.known_move m _ hr)
      fun ρ agrees _ => ?_⟩
    obtain ⟨hv, inStep⟩ := step ρ agrees
    exact ⟨hv, inStep.alike fun hne => absurd (none.trans hn.symm) hne⟩
  · have given := (step σ fun _ _ => rfl).2.issued (hn ▸ none)
    rw [hn, hn'] at given
    obtain ⟨σ', keeps, new⟩ := exists_number h.issued
    rw [hn, hn'] at new
    refine ⟨fun r => known r ∨ r = n + 1, σ', h.concat (fun r hr => ⟨.inl hr, keeps r hr⟩) ?_
      fun ρ agrees earlier => ?_⟩
    · rintro r (hr | rfl)
      · rw [keeps r hr]
        exact h.known_move m _ hr
      · rw [new, follow_concat]
        exact ⟨Nat.le_of_eq given.1.symm, Nat.le_of_eq given.2.symm⟩
    · obtain ⟨hv, inStep⟩ := step ρ earlier
      refine ⟨hv, inStep.alike fun _ => ?_⟩
      rw [hn, hn', agrees _ (.inr rfl), new]

end Shadow

/-- Every course has a shadow without a contender for something else. -/
theorem exists_shadow (host : String) (wall : Int) (now : Nat) (course : List Move)
    (hb : ((fresh host wall now).follow course).Strays bucket key b) :
    ∃ known σ v, Shadow bucket key b (fresh host wall now) course known σ v := by
  induction course using List.reverseRecOn with
  | nil => exact ⟨_, _, _, .fresh ..⟩
  | append_singleton course m ih =>
    rw [follow_append] at hb
    have hb := hb.of_follow
    obtain ⟨known, σ, v, h⟩ := ih hb
    cases starts : m.starts b with
    | true => exact ⟨known, σ, v, h.starts hb starts⟩
    | false =>
      by_cases acts : ((fresh host wall now).follow course).Acts bucket key m
      · obtain ⟨known', σ', h'⟩ := h.acts starts acts
        exact ⟨known', σ', _, h'⟩
      · exact ⟨known, σ, _, h.idles hb starts acts⟩

end

/-! ## Isolation -/

/-- The answer of a call depends on the row of its key alone. -/
theorem perform_congr {s s' : Store} {y : Candidacy} (now : Nat) (q : Request)
    (available : s'.available = s.available) (issued : s'.issued = s.issued)
    (row : s'.rows.get? y.key = s.rows.get? y.key) :
    (perform s' now y q).2 = (perform s now y q).2 := by
  cases q with
  | acquire =>
    simp only [perform, Store.create, Store.live?, available, issued, row]
    split
    · rfl
    · split
      · rfl
      · split <;> rfl
  | renew revision =>
    simp only [perform, Store.update, available, issued, row]
    split
    · rfl
    · split
      · rfl
      · split
        · rfl
        · split
          · rfl
          · split <;> rfl

/-- Turns of a contender for something else leave the row as it is. -/
theorem through_untouched {start : World} {course : List Move} {bucket key b : String}
    (hb : (start.follow course).Strays bucket key b) :
    start.Through (fun w m => ∀ i draw, m = .poll (.run b i) draw →
      ((w.move m).bucket bucket).store.rows.get? key =
        (w.bucket bucket).store.rows.get? key) course := by
  induction course generalizing start with
  | nil => trivial
  | cons m course ih =>
    refine ⟨fun i draw poll => ?_, ih hb⟩
    subst poll
    exact (aloof_pollRun (b := b) start (Strays.of_follow hb) i draw).row

/-- On the course, `a` on the terms `y` has nothing to do with `b` on the terms `z`. -/
structure Isolated (start : World) (course : List Move) (a b : String) (y z : Candidacy) :
    Prop where
  /-- No turn of the other changes the row that `a` contends for. -/
  untouched : start.Through (fun w m => ∀ i draw, m = .poll (.run b i) draw →
    ((w.move m).bucket y.bucket).store.rows.get? y.key =
      (w.bucket y.bucket).store.rows.get? y.key) course
  /-- A call of `a` gets the same answer whatever is in the row of the other, and without it. -/
  indifferent : ∀ (s : Store) (now : Nat) (q : Request),
    (∀ row, (perform (s.put z.key row) now y q).2 = (perform s now y q).2) ∧
      (perform (s.expire z.key) now y q).2 = (perform s now y q).2
  /-- If the other had never been started, `a` would have noted the same at the same times and be at
  the same points of its calls of `run` all along, up to the numbers of revisions. -/
  hidden : ∃ ρ : Equiv.Perm Nat, ∀ before, before <+: course →
    (start.follow (without b ρ y.bucket y.key before)).notes a =
        ((start.follow before).notes a).map (fun x => (x.1, x.2.renumber ρ)) ∧
      (start.follow (without b ρ y.bucket y.key before)).contenders.get? a =
        ((start.follow before).contenders.get? a).map (·.renumber ρ)

theorem isolated_of_ne {host : String} {wall : Int} {now : Nat} {course : List Move}
    {a b : String} {c d : Contender}
    (hc : ((fresh host wall now).follow course).contenders.get? a = some c)
    (hd : ((fresh host wall now).follow course).contenders.get? b = some d)
    (hne : d.candidacy.key ≠ c.candidacy.key) :
    Isolated (fresh host wall now) course a b c.candidacy d.candidacy := by
  have strays : ((fresh host wall now).follow course).Strays c.candidacy.bucket
      c.candidacy.key b := by
    intro d' hd' contends
    obtain rfl := Option.some.inj (hd.symm.trans hd')
    exact hne contends.2
  obtain ⟨known, σ, v, h⟩ := exists_shadow host wall now course strays
  refine ⟨through_untouched strays, fun s now q => ⟨fun row => ?_, ?_⟩, σ, fun before hbefore => ?_⟩
  · exact perform_congr now q rfl rfl (by rw [Store.get?_rows_put, if_neg hne])
  · exact perform_congr now q rfl rfl (by rw [Store.get?_rows_expire, if_neg hne])
  · have alike := h.alike σ (fun _ _ => rfl) before hbefore
    -- whoever went by the name on the way is the contender at the end
    have mine {c' : Contender}
        (hc' : ((fresh host wall now).follow before).contenders.get? a = some c') :
        c'.candidacy.Contends c.candidacy.bucket c.candidacy.key := by
      obtain ⟨after, rfl⟩ := hbefore
      rw [follow_append] at hc
      rw [candidacy_follow after hc' hc]
      exact ⟨rfl, rfl⟩
    refine ⟨alike.notes a fun c' hc' => mine hc', ?_⟩
    have rel := alike.contenders a
    cases hc' : ((fresh host wall now).follow before).contenders.get? a with
    | none => exact eq_none_of_rel (hc' ▸ rel)
    | some c' =>
      rw [hc'] at rel
      obtain ⟨d', hd', same⟩ := exists_of_rel' rel
      rw [hd', same.2 (mine hc'), Option.map_some]

/-- Contenders in different elections leave each other alone on every course, unless a point in a
name gives both one row. -/
theorem isolated {host : String} {wall : Int} {now : Nat} {course : List Move} {a b : String}
    {c d : Contender} (hc : ((fresh host wall now).follow course).contenders.get? a = some c)
    (hd : ((fresh host wall now).follow course).contenders.get? b = some d)
    (apart : c.candidacy.Apart d.candidacy) :
    Isolated (fresh host wall now) course a b c.candidacy d.candidacy ∧
      Isolated (fresh host wall now) course b a d.candidacy c.candidacy := by
  have hne := apart.key_ne (scoped_follow host wall now course hc)
    (scoped_follow host wall now course hd)
  exact ⟨isolated_of_ne hc hd (Ne.symm hne), isolated_of_ne hd hc hne⟩

/-- Two contenders of one name for different keys, with campaigns by turns. -/
def duet : List Move :=
  [.openContender "a" (contenderFor "e" "k"), .openContender "b" (contenderFor "e" "l"),
    .callRun "b" false, .callRun "a" false, .poll (.run "b" 0) 0,
    .poll (.run "a" 0) 0, .advance 15000000000, .poll (.run "b" 0) 0, .poll (.run "a" 0) 0]

theorem isolated_duet :
    (15000000000, .answered (.renew 2) (.ok 4)) ∈ ((fresh "h" 0 0).follow duet).notes "a" ∧
    (15000000000, .answered (.renew 1) (.ok 2)) ∈
      ((fresh "h" 0 0).follow (without "b" id "m" "e.k" duet)).notes "a" ∧
    ∃ c d, ((fresh "h" 0 0).follow duet).contenders.get? "a" = some c ∧
      ((fresh "h" 0 0).follow duet).contenders.get? "b" = some d ∧
      c.candidacy.Apart d.candidacy ∧
      Isolated (fresh "h" 0 0) duet "a" "b" c.candidacy d.candidacy ∧
      Isolated (fresh "h" 0 0) duet "b" "a" d.candidacy c.candidacy := by
  have terms : (((fresh "h" 0 0).follow duet).contenders.get? "a").map (·.candidacy.key) =
      some "e.k" := by decide +kernel
  have terms' : (((fresh "h" 0 0).follow duet).contenders.get? "b").map (·.candidacy.key) =
      some "e.l" := by decide +kernel
  obtain ⟨c, hc, hk⟩ := Option.map_eq_some_iff.1 terms
  obtain ⟨d, hd, hk'⟩ := Option.map_eq_some_iff.1 terms'
  have differ : c.candidacy.key ≠ d.candidacy.key := by
    rw [hk, hk']
    decide
  have apart : c.candidacy.Apart d.candidacy :=
    ⟨fun heq => differ (Prod.mk.inj heq).2, .inl differ⟩
  exact ⟨by decide +kernel, by decide +kernel, c, d, hc, hd, apart, isolated hc hd apart⟩

/-- Two contenders whose names and keys differ and make one key of the store. -/
def homonyms : List Move :=
  [.openContender "a" (contenderFor "a.b" "c"), .openContender "b" (contenderFor "a" "b.c"),
    .callRun "a" false, .callRun "b" false, .poll (.run "a" 0) 0,
    .poll (.run "b" 0) 0]

/-- A point in a name makes one election of two: the entry of one contender is in the way of the
other, which would have won without it. -/
theorem merges_at_point :
    (((fresh "h" 0 0).follow homonyms).contenders.get? "a").map
        (fun c => (c.candidacy.bucket, c.candidacy.name, c.candidacy.key)) =
      some ("m", "a.b", storageKey "a.b" "c") ∧
    (((fresh "h" 0 0).follow homonyms).contenders.get? "b").map
        (fun c => (c.candidacy.bucket, c.candidacy.name, c.candidacy.key)) =
      some ("m", "a", storageKey "a" "b.c") ∧
    (((fresh "h" 0 0).follow homonyms).bucket "m").store.rows.get? "a.b.c" =
      (((fresh "h" 0 0).follow homonyms).contenders.get? "a").map
        (fun c => ⟨utf8 c.candidacy.identity, 1, 30000000000⟩) ∧
    (0, .answered .acquire (.error (.conflict "a.b.c"))) ∈
      ((fresh "h" 0 0).follow homonyms).notes "b" ∧
    ∀ ρ : Equiv.Perm Nat,
      ((fresh "h" 0 0).follow (without "a" ρ "m" "a.b.c" homonyms)).notes "b" ≠
        (((fresh "h" 0 0).follow homonyms).notes "b").map (fun x => (x.1, x.2.renumber ρ)) := by
  refine ⟨by decide +kernel, by decide +kernel, by decide +kernel, by decide +kernel,
    fun ρ heq => ?_⟩
  have wins : (0, .won .leader) ∈
      ((fresh "h" 0 0).follow (homonyms.filter fun m => !m.starts "a")).notes "b" := by
    decide +kernel
  have loses : (0, .won .leader) ∉ ((fresh "h" 0 0).follow homonyms).notes "b" := by
    decide +kernel
  rw [show homonyms.filter (fun m => !m.starts "a") = without "a" ρ "m" "a.b.c" homonyms from rfl,
    heq] at wins
  obtain ⟨⟨t, n⟩, hn, same⟩ := List.mem_map.1 wins
  cases n <;> cases same
  exact loses hn

end World

end Tenure
