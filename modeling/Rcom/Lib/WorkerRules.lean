import Rcom.Lib.Workers

/-!
# Code that hands records to workers

What the threads of `Rcom.Lib.Workers` usually do: put a record in a list, move it to the second
list, free all records of that list, stop all workers. Each comes with the rule for its
precondition. At the end is a way to run such threads on a given order.
-/

namespace Rcom.Lib.Workers
open Program Trace

variable {D B : Type} {R : B → Type} (C : Contract D B R)

/-! ## Sections under the mutex -/

section Sections
variable {α β : Type}

def addRecord (k : ℕ) : Program R Unit := do
  let _ ← doing .lock
  let _ ← doing (.append k)
  doing .unlock

def removeRecord (k : ℕ) : Program R Unit := do
  let _ ← doing .lock
  let _ ← doing (.remove k)
  let _ ← doing (.prepend k)
  doing .unlock

def forAll (f : ℕ → Program R Unit) : List ℕ → Program R Unit
  | [] => pure ()
  | k :: l => do
    f k
    forAll f l

def retireRecord (k : ℕ) : Program R Unit := do
  let _ ← doing .lock
  let _ ← doing (.remove k)
  let _ ← doing (.prepend k)
  let _ ← doing (.release k)
  doing .unlock

def deleteFinished (delete : ℕ → Program R Unit) : Program R Unit := do
  let _ ← doing .lock
  let l : List ℕ ← doing .finished
  forAll delete l
  let _ ← doing .clear
  doing .unlock

def takeAll (stop : ℕ → Program R Unit) : Program R Unit := do
  let _ ← doing .lock
  let l : List ℕ ← doing .take
  let _ ← doing .unlock
  forAll stop l

variable {C} {Q : α → View D → Prop} {c : Control D} {w : Worker D}

theorem wp_control {a : Act B} {f : a.Answer R → Program R α} (hpre : c.Pre C a)
    (h : ∀ r c', c.Sees C a r c' → wp (View.Sees C) (View.Pre C) True Q (f r) (.control c')) :
    wp (View.Sees C) (View.Pre C) True Q (.act a f) (.control c) := by
  refine ⟨hpre, fun r v hv => ?_⟩
  cases v with
  | control c' => exact h r c' hv
  | worker w' => exact hv.elim

theorem wp_worker {a : Act B} {f : a.Answer R → Program R α} (hpre : w.Pre C a)
    (h : ∀ r w', w.Sees C a r w' → wp (View.Sees C) (View.Pre C) True Q (f r) (.worker w')) :
    wp (View.Sees C) (View.Pre C) True Q (.act a f) (.worker w) := by
  refine ⟨hpre, fun r v hv => ?_⟩
  cases v with
  | control c' => exact hv.elim
  | worker w' => exact h r w' hv

theorem wp_own {k : ℕ} {b : B} {d : D} {f : R b → Program R α} (hd : c.data k = some d)
    (hsound : ∀ r d', C.does d b r d' → C.sound d')
    (h : ∀ r d', C.does d b r d' →
      wp (View.Sees C) (View.Pre C) True Q (f r) (.control (c.setCtl k (c.ctl k) (some d')))) :
    wp (View.Sees C) (View.Pre C) True Q (.act (.own k b) f) (.control c) := by
  refine wp_control (.inl ⟨d, hd, hsound⟩) ?_
  rintro r c' (⟨d₀, d', hd₀, hdoes, rfl⟩ | ⟨hnone, -⟩)
  · obtain rfl : d = d₀ := Option.some.inj (hd.symm.trans hd₀)
    exact h r d' hdoes
  · rw [hd] at hnone
    cases hnone

theorem wp_own_swept {k : ℕ} {b : B} {f : R b → Program R α} (hk : c.Sweeps C k)
    (hd : c.data k = none) (hreturned : ∀ d r d', C.returned d → C.does d b r d' → C.returned d')
    (h : ∀ r d d', C.returned d → C.does d b r d' →
      wp (View.Sees C) (View.Pre C) True Q (f r) (.control c)) :
    wp (View.Sees C) (View.Pre C) True Q (.act (.own k b) f) (.control c) := by
  refine wp_control (.inr ⟨hk, hreturned⟩) ?_
  rintro r c' (⟨d₀, d', hd₀, -⟩ | ⟨-, ⟨d₀, d', hret, hdoes⟩, rfl⟩)
  · rw [hd] at hd₀
    cases hd₀
  · exact h r d₀ d' hret hdoes

theorem wp_own_worker {k : ℕ} {x : Wrk} {b : B} {d : D} {holds : Prop} {f : R b → Program R α}
    (hsound : ∀ r d', C.does d b r d' → C.sound d')
    (h : ∀ r d', C.does d b r d' →
      wp (View.Sees C) (View.Pre C) True Q (f r) (.worker ⟨k, x, some d', holds⟩)) :
    wp (View.Sees C) (View.Pre C) True Q (.act (.own k b) f) (.worker ⟨k, x, some d, holds⟩) := by
  refine wp_worker ⟨rfl, d, rfl, hsound⟩ ?_
  rintro r w' ⟨d₀, d', hd₀, hdoes, rfl⟩
  obtain rfl : d = d₀ := Option.some.inj hd₀
  exact h r d' hdoes

theorem wp_join {k : ℕ} {f : Unit → Program R α} (hc : c.ctl k = .running)
    (h : wp (View.Sees C) (View.Pre C) True Q (f ()) (.control (c.setCtl k .joined none))) :
    wp (View.Sees C) (View.Pre C) True Q (.act (.join k) f) (.control c) := by
  refine wp_control (.inl hc) ?_
  rintro _ c' rfl
  rwa [if_neg (by simp [hc])]

theorem wp_join_stranded {k : ℕ} {f : Unit → Program R α} (hc : c.ctl k = .stranded)
    (h : wp (View.Sees C) (View.Pre C) True Q (f ()) (.control c)) :
    wp (View.Sees C) (View.Pre C) True Q (.act (.join k) f) (.control c) := by
  refine wp_control (.inr hc) ?_
  rintro _ c' rfl
  rwa [if_pos hc]

theorem wp_begin {k : ℕ} {f : Unit → Program R α}
    (h : ∀ d, C.handed d →
      wp (View.Sees C) (View.Pre C) True Q (f ()) (.worker ⟨k, .working, some d, False⟩)) :
    wp (View.Sees C) (View.Pre C) True Q (.act (.begin k) f) (.worker ⟨k, .idle, none, False⟩) := by
  refine wp_worker ⟨rfl, rfl⟩ ?_
  rintro _ w' ⟨d, hd, rfl⟩
  exact h d hd

theorem wp_removeRecord {Q : Unit → View D → Prop} {k : ℕ} {d : D} (hC : C.discipline ≠ .prompt)
    (h : Q () (.worker ⟨k, .retired, some d, False⟩)) :
    wp (View.Sees C) (View.Pre C) True Q (removeRecord k)
      (.worker ⟨k, .working, some d, False⟩) := by
  refine wp_worker not_false ?_
  rintro _ w₁ rfl
  refine wp_worker ⟨rfl, trivial, rfl⟩ ?_
  rintro _ w₂ rfl
  refine wp_worker ⟨rfl, trivial, rfl⟩ ?_
  rintro _ w₃ rfl
  refine wp_worker ⟨trivial, by simp, fun hp => absurd hp hC⟩ ?_
  rintro _ w₄ rfl
  exact h

theorem wp_retireRecord {Q : Unit → View D → Prop} {k : ℕ} {d : D} (hd : C.returned d)
    (h : Q () (.worker ⟨k, .released, none, False⟩)) :
    wp (View.Sees C) (View.Pre C) True Q (retireRecord k)
      (.worker ⟨k, .working, some d, False⟩) := by
  refine wp_worker not_false ?_
  rintro _ w₁ rfl
  refine wp_worker ⟨rfl, trivial, rfl⟩ ?_
  rintro _ w₂ rfl
  refine wp_worker ⟨rfl, trivial, rfl⟩ ?_
  rintro _ w₃ rfl
  refine wp_worker ⟨rfl, rfl, by simpa using hd⟩ ?_
  rintro _ w₄ rfl
  refine wp_worker ⟨trivial, by simp, by simp⟩ ?_
  rintro _ w₅ rfl
  exact h

def Control.setAll (c : Control D) (l : List ℕ) (x : Ctl) : Control D :=
  { c with
    ctl := fun k => if k ∈ l then x else c.ctl k
    data := fun k => if k ∈ l then none else c.data k }

@[simp] theorem setAll_nil (x : Ctl) : c.setAll [] x = c := by simp [Control.setAll]

theorem setAll_cons (k : ℕ) (l : List ℕ) (x : Ctl) :
    (c.setCtl k x none).setAll l x = c.setAll (k :: l) x := by
  simp only [Control.setAll, Control.setCtl, Control.mk.injEq, and_true]
  constructor
  all_goals
    funext j
    by_cases hj : j = k
    · simp [hj]
    · simp [hj]

@[simp] theorem setCtl_setCtl {k : ℕ} {x y : Ctl} {d e : Option D} :
    (c.setCtl k x d).setCtl k y e = c.setCtl k y e := by
  simp [Control.setCtl]

theorem setAll_setCtl {k : ℕ} {l : List ℕ} {x y : Ctl} {d : Option D} (hk : k ∉ l) :
    (c.setCtl k x d).setAll l y = (c.setAll l y).setCtl k x d := by
  simp only [Control.setAll, Control.setCtl, Control.mk.injEq, and_true]
  constructor
  all_goals
    funext j
    by_cases hj : j = k
    · simp [hj, hk]
    · simp [hj]

theorem wp_addRecord {Q : Unit → View D → Prop} {k : ℕ} (hfin : c.fin = none)
    (hc : c.ctl k = .made) (ht : c.taken = none)
    (hQ : Q () (.control (c.setCtl k .listed (c.data k)))) :
    wp (View.Sees C) (View.Pre C) True Q (addRecord k) (.control c) := by
  refine wp_control hfin ?_
  rintro _ c₁ ⟨l, hl, rfl⟩
  refine wp_control ⟨rfl, hc, ht⟩ ?_
  rintro _ c₂ rfl
  refine wp_control ⟨l, rfl, fun j hj => ?_⟩ ?_
  · by_cases hjk : j = k
    · simp [Control.setCtl, hjk]
    · rcases hl.out j hj with h | h <;> simp [Control.setCtl, hjk, h]
  · rintro _ c₃ rfl
    have hsame : ({ ({ c with fin := some l } : Control D).setCtl k .listed (c.data k) with
        fin := none } : Control D) = c.setCtl k .listed (c.data k) := by
      simp [Control.setCtl, hfin]
    exact hsame ▸ hQ

/-- A loop over records whose rounds each bring one record to `x`. -/
theorem wp_forAll {f : ℕ → Program R Unit} {x : Ctl} {I : Control D → ℕ → Prop}
    (hf : ∀ c k, I c k → ∀ Q : Unit → View D → Prop, Q () (.control (c.setCtl k x none)) →
      wp (View.Sees C) (View.Pre C) True Q (f k) (.control c))
    (hkeep : ∀ c j k, j ≠ k → I c k → I (c.setCtl j x none) k) {l : List ℕ} (hl : l.Nodup)
    {Q : Unit → View D → Prop} (hI : ∀ k ∈ l, I c k) (hQ : Q () (.control (c.setAll l x))) :
    wp (View.Sees C) (View.Pre C) True Q (forAll f l) (.control c) := by
  induction l generalizing c with
  | nil => simpa [forAll] using hQ
  | cons k l ih =>
    obtain ⟨hk, hl⟩ := List.nodup_cons.1 hl
    rw [forAll, wp_bind]
    refine hf c k (hI k List.mem_cons_self) _ (ih hl (fun j hj => ?_) ?_)
    · have hne : k ≠ j := fun h => hk (h ▸ hj)
      exact hkeep c k j hne (hI j (List.mem_cons_of_mem _ hj))
    · rwa [setAll_cons]

def Control.Left (c : Control D) (k : ℕ) : Prop :=
  (∃ l, c.fin = some l ∧ k ∈ l) ∧ (c.ctl k = .running ∨ c.ctl k = .joined) ∧ c.data k = none

theorem wp_deleteFinished {delete : ℕ → Program R Unit} {Q : Unit → View D → Prop}
    (hdelete : ∀ (c : Control D) k, c.Left k → ∀ Q : Unit → View D → Prop,
      Q () (.control (c.setCtl k .freed none)) →
        wp (View.Sees C) (View.Pre C) True Q (delete k) (.control c)) (hfin : c.fin = none)
    (hQ : ∀ l, c.Found l → Q () (.control (c.setAll l .freed))) :
    wp (View.Sees C) (View.Pre C) True Q (deleteFinished delete) (.control c) := by
  refine wp_control hfin ?_
  rintro _ c₁ ⟨l, hl, rfl⟩
  refine wp_control rfl ?_
  rintro l' c₂ ⟨hl', rfl⟩
  obtain rfl : l = l' := Option.some.inj hl'
  refine (wp_bind (p := forAll delete l)).2 ?_
  refine wp_forAll hdelete ?_ hl.nodup (fun k hk => ⟨⟨l, rfl, hk⟩, hl.out k hk, hl.data k hk⟩) ?_
  · rintro c j k hne ⟨hk, hc⟩
    exact ⟨hk, by simpa [Control.setCtl, Ne.symm hne] using hc⟩
  refine wp_control ⟨l, rfl, fun k hk => by simp [Control.setAll, hk]⟩ ?_
  rintro _ c₃ rfl
  refine wp_control ⟨[], rfl, by simp⟩ ?_
  rintro _ c₄ rfl
  have hsame : ({ ({ c with fin := some l } : Control D).setAll l .freed with fin := none } :
      Control D) = c.setAll l .freed := by
    simp [Control.setAll, hfin]
  exact hsame ▸ hQ l hl

/-- Where the control thread has no record in its hands. `Kept` is what is left of those it has made
and dropped. -/
structure Control.Between (Kept : D → Prop) (c : Control D) : Prop where
  fin : c.fin = none
  taken : c.taken = none
  ctl : ∀ k, c.ctl k = .fresh ∨ (c.ctl k = .running ∨ c.ctl k = .stranded) ∨ c.ctl k = .freed ∨
    c.ctl k = .made ∧ ∃ d, c.data k = some d ∧ Kept d

structure Control.Cleared (Kept : D → Prop) (c : Control D) : Prop where
  ctl : ∀ k, c.ctl k = .fresh ∨ c.ctl k = .stranded ∨ c.ctl k = .freed ∨
    c.ctl k = .made ∧ ∃ d, c.data k = some d ∧ Kept d

theorem Control.Between.setCtl {Kept : D → Prop} (h : c.Between Kept) {k : ℕ} {x : Ctl}
    {d : Option D} (hx : (x = .running ∨ x = .stranded) ∨ x = .freed ∨
      x = .made ∧ ∃ d₀, d = some d₀ ∧ Kept d₀) :
    (c.setCtl k x d).Between Kept := by
  refine ⟨h.fin, h.taken, fun j => ?_⟩
  by_cases hj : j = k
  · subst hj
    simpa [Control.setCtl] using .inr hx
  · simpa [Control.setCtl, hj] using h.ctl j

theorem Control.Between.setAll {Kept : D → Prop} (h : c.Between Kept) (l : List ℕ) :
    (c.setAll l .freed).Between Kept := by
  refine ⟨h.fin, h.taken, fun j => ?_⟩
  by_cases hj : j ∈ l
  · simp [Control.setAll, hj]
  · simpa [Control.setAll, hj] using h.ctl j

theorem Control.Between.not_listed {Kept : D → Prop} (h : c.Between Kept) (k : ℕ) :
    c.ctl k ≠ .listed := by
  intro hk
  rcases h.ctl k with h' | (h' | h') | h' | ⟨h', -⟩ <;> simp [h'] at hk

/-- A new record is put in the list and, after a sweep, its worker is started. -/
theorem wp_launch {Kept : D → Prop} {delete : ℕ → Program R Unit} {k : ℕ} {d : D}
    {rest : Program R α}
    (hdelete : ∀ (c : Control D) k, c.Left k → ∀ Q : Unit → View D → Prop,
      Q () (.control (c.setCtl k .freed none)) →
        wp (View.Sees C) (View.Pre C) True Q (delete k) (.control c)) (hc : c.Between Kept)
    (hd : C.handed d)
    (h : ∀ c' : Control D, c'.Between Kept →
      wp (View.Sees C) (View.Pre C) True Q rest (.control c')) :
    wp (View.Sees C) (View.Pre C) True Q
      (do
        addRecord k
        deleteFinished delete
        let _ ← doing (.start k)
        rest)
      (.control (c.setCtl k .made (some d))) := by
  have hmade : (c.setCtl k .made (some d)).ctl k = .made := by simp [Control.setCtl]
  have hdata : (c.setCtl k .made (some d)).data k = some d := by simp [Control.setCtl]
  refine (wp_bind (p := addRecord k)).2 (wp_addRecord hc.fin hmade hc.taken ?_)
  rw [hdata, setCtl_setCtl]
  refine (wp_bind (p := deleteFinished delete)).2 (wp_deleteFinished hdelete hc.fin ?_)
  intro l hfound
  have hk : k ∉ l := fun hl => by
    rcases hfound.out k hl with h' | h' <;> simp [Control.setCtl] at h'
  rw [setAll_setCtl hk]
  refine wp_control ⟨by simp [Control.setCtl], hc.taken, ?_⟩ ?_
  · simpa [Control.setCtl] using hd
  rintro started c' rfl
  rw [setCtl_setCtl]
  refine h _ ((hc.setAll l).setCtl (.inl ?_))
  cases started with
  | true => exact .inl rfl
  | false => exact .inr rfl

variable (c) in
def Control.joinAll (l : List ℕ) : Control D := c.setAll (l.filter fun k => c.ctl k = .running) .joined

/-- The last sweep, after the workers of the records in `l` have been joined. -/
theorem wp_deleteFinished_last {Kept : D → Prop} {delete : ℕ → Program R Unit}
    {Q : Unit → View D → Prop} {l : List ℕ}
    (hdelete : ∀ (c : Control D) k, c.Left k → ∀ Q : Unit → View D → Prop,
      Q () (.control (c.setCtl k .freed none)) →
        wp (View.Sees C) (View.Pre C) True Q (delete k) (.control c)) (hc : c.Between Kept)
    (hQ : ∀ c' : Control D, c'.Cleared Kept → Q () (.control c')) :
    wp (View.Sees C) (View.Pre C) True Q (deleteFinished delete)
      (.control (({ c with taken := some l } : Control D).joinAll l)) := by
  refine wp_deleteFinished hdelete hc.fin fun l' hfound => hQ _ ⟨fun k => ?_⟩
  by_cases hk : k ∈ l'
  · simp [Control.setAll, hk]
  have hrunning : c.ctl k ≠ .running := fun hr => by
    by_cases hkl : k ∈ l
    · exact hk (hfound.joined k (by simp [Control.joinAll, Control.setAll, hkl, hr]))
    · exact (hfound.running l rfl k (by simp [Control.joinAll, Control.setAll, hkl, hr])).elim hkl hk
  rcases hc.ctl k with h | (h | h) | h | h
  · simp [Control.joinAll, Control.setAll, hk, h]
  · exact absurd h hrunning
  · simp [Control.joinAll, Control.setAll, hk, h]
  · simp [Control.joinAll, Control.setAll, hk, h]
  · simpa [Control.joinAll, Control.setAll, hk, h.1] using h.2

theorem wp_stopAll {stop : ℕ → Program R Unit} {Q : Unit → View D → Prop} {l : List ℕ}
    (hstop : ∀ (c : Control D) k, c.ctl k = .running → ∀ Q : Unit → View D → Prop,
      Q () (.control (c.setCtl k .joined none)) →
        wp (View.Sees C) (View.Pre C) True Q (stop k) (.control c))
    (hskip : ∀ (c : Control D) k, c.ctl k = .stranded → ∀ Q : Unit → View D → Prop,
      Q () (.control c) → wp (View.Sees C) (View.Pre C) True Q (stop k) (.control c))
    (hnodup : l.Nodup) (hl : ∀ k ∈ l, c.ctl k = .running ∨ c.ctl k = .stranded)
    (hQ : Q () (.control (c.joinAll l))) :
    wp (View.Sees C) (View.Pre C) True Q (forAll stop l) (.control c) := by
  induction l generalizing c with
  | nil => simpa [forAll, Control.joinAll] using hQ
  | cons k l ih =>
    obtain ⟨hk, hnodup⟩ := List.nodup_cons.1 hnodup
    have hothers {j : ℕ} (hj : j ∈ l) : (c.setCtl k .joined none).ctl j = c.ctl j := by
      have hne : j ≠ k := fun h => hk (h ▸ hj)
      simp [Control.setCtl, hne]
    have htail (j : ℕ) (hj : j ∈ l) := hl j (List.mem_cons_of_mem _ hj)
    rw [forAll, wp_bind]
    rcases hl k List.mem_cons_self with hrunning | hstranded
    · refine hstop c k hrunning _ (ih hnodup (fun j hj => hothers hj ▸ htail j hj) ?_)
      have hfilter : l.filter (fun j => (c.setCtl k .joined none).ctl j = .running) =
          l.filter fun j => c.ctl j = .running :=
        List.filter_congr fun j hj => by rw [hothers hj]
      rw [Control.joinAll, List.filter_cons_of_pos (by simpa using hrunning)] at hQ
      rw [Control.joinAll, hfilter, setAll_cons]
      exact hQ
    · refine hskip c k hstranded _ (ih hnodup htail ?_)
      rwa [Control.joinAll, List.filter_cons_of_neg (by simp [hstranded])] at hQ

theorem wp_takeAll {Kept : D → Prop} {stop : ℕ → Program R Unit} {Q : Unit → View D → Prop}
    (hstop : ∀ (c : Control D) k, c.ctl k = .running → ∀ Q : Unit → View D → Prop,
      Q () (.control (c.setCtl k .joined none)) →
        wp (View.Sees C) (View.Pre C) True Q (stop k) (.control c))
    (hskip : ∀ (c : Control D) k, c.ctl k = .stranded → ∀ Q : Unit → View D → Prop,
      Q () (.control c) → wp (View.Sees C) (View.Pre C) True Q (stop k) (.control c))
    (hc : c.Between Kept)
    (hQ : ∀ l, Q () (.control (({ c with taken := some l } : Control D).joinAll l))) :
    wp (View.Sees C) (View.Pre C) True Q (takeAll stop) (.control c) := by
  refine wp_control hc.fin ?_
  rintro _ c₁ ⟨l', hfound, rfl⟩
  refine wp_control ⟨rfl, hc.taken, hc.not_listed⟩ ?_
  rintro l c₂ ⟨hnodup, hout, rfl⟩
  refine wp_control ⟨l', rfl, fun k hk => ?_⟩ ?_
  · rcases hfound.out k hk with h | h <;> simp [h]
  rintro _ c₃ rfl
  have hsame : ({ c with taken := some l } : Control D) =
      { ctl := c.ctl, data := c.data, fin := none, taken := some l } := by
    simp [hc.fin]
  rw [← hsame]
  exact wp_stopAll hstop hskip hnodup hout (hQ l)

end Sections

/-! ## Executable runs -/

section Answers

/-- One way in which the actions are answered: `ask`, `own` and `start` are given, and the new records
are the first `n` numbers. -/
def answers (C : Contract D B R) (n : ℕ) (ask : ℕ → Pool D → Bool) (own : D → (b : B) → R b × D)
    (start : Bool) (i : ℕ) (s : Pool D) : (a : Act B) → Option (a.Answer R × Pool D)
  | .lock => if s.holder = none then some ((), { s with holder := some i }) else none
  | .unlock => some ((), { s with holder := none })
  | .ask => some (ask i s, s)
  | .accept =>
    match (List.range n).find? fun k => s.ctl k = .fresh with
    | none => some (none, s)
    | some k => some (some k, (s.setCtl k .made).setData k C.new)
  | .own k b => some ((own (s.data k) b).1, s.setData k (own (s.data k) b).2)
  | .append k => some ((), { s.setCtl k .listed with active := s.active ++ [k] })
  | .start k => some (start, s.setCtl k (if start then .running else .stranded))
  | .thread k => some (decide (s.ctl k = .running), s)
  | .join k =>
    if s.ctl k = .stranded then some ((), s)
    else if s.wrk k = .released then some ((), s.setCtl k .joined) else none
  | .finished => some (s.finished, s)
  | .free k =>
    some ((), { s.setCtl k .freed with frees := Function.update s.frees k (s.frees k + 1) })
  | .clear => some ((), { s with finished := [] })
  | .anyActive =>
    some (!s.active.isEmpty, if !s.active.isEmpty then s else { s with taken := some [] })
  | .take => some (s.active, { s with active := [], taken := some s.active })
  | .begin k => if s.ctl k = .running then some ((), s.setWrk k .working) else none
  | .remove k => some ((), { s.setWrk k .leaving with active := s.active.erase k })
  | .prepend k => some ((), { s.setWrk k .retired with finished := k :: s.finished })
  | .release k => some ((), s.setWrk k .released)

theorem does_answers {C : Contract D B R} {n : ℕ} {ask : ℕ → Pool D → Bool} {own : D → (b : B) → R b × D}
    {start : Bool} (hown : ∀ d b, C.does d b (own d b).1 (own d b).2) {i : ℕ} {s t : Pool D} {a : Act B}
    {r : a.Answer R} (h : answers C n ask own start i s a = some (r, t)) : Does C i s a r t := by
  cases a with
  | lock | begin =>
    simp only [answers, Option.ite_none_right_eq_some, Option.some.injEq, Prod.mk.injEq] at h
    exact ⟨h.1, h.2.2.symm⟩
  | join =>
    rw [answers] at h
    split_ifs at h with hc hw <;> cases h
    · exact .inl ⟨hc, rfl⟩
    · exact .inr ⟨hc, hw, rfl⟩
  | accept =>
    rw [answers] at h
    split at h
    · cases h
      exact rfl
    · next k hk =>
      cases h
      exact ⟨by simpa using List.find?_some hk, rfl⟩
  | own k b =>
    cases h
    exact ⟨_, fun _ => hown _ _, rfl⟩
  | thread | finished | anyActive | take =>
    cases h
    exact ⟨rfl, rfl⟩
  | unlock | ask | append | start | free | clear | remove | prepend | release =>
    cases h
    exact rfl

theorem started_of_answers {C : Contract D B R} {n : ℕ} {ask : ℕ → Pool D → Bool}
    {own : D → (b : B) → R b × D} {i : ℕ} {s t : Pool D} {a : Act B} {r : a.Answer R}
    (h : answers C n ask own true i s a = some (r, t)) (k : ℕ) :
    (⟨a, r⟩ : Event (Act.Answer R)) ≠ ⟨.start k, false⟩ := by
  intro heq
  cases heq
  cases h

def Act.touches : Act B → Option ℕ
  | .free k | .own k _ => some k
  | _ => none

def timelyAnswers (C : Contract D B R) (n : ℕ) (ask : ℕ → Pool D → Bool)
    (own : D → (b : B) → R b × D) (start : Bool) (i : ℕ) (s : Pool D) (a : Act B) :
    Option (a.Answer R × Pool D) :=
  if i = 0 → ∀ k ∈ a.touches, s.ctl k = .running → s.wrk k = .released then
    answers C n ask own start i s a
  else none

theorem does_timelyAnswers {C : Contract D B R} {n : ℕ} {ask : ℕ → Pool D → Bool}
    {own : D → (b : B) → R b × D} {start : Bool} (hown : ∀ d b, C.does d b (own d b).1 (own d b).2)
    {i : ℕ} {s t : Pool D} {a : Act B} {r : a.Answer R}
    (h : timelyAnswers C n ask own start i s a = some (r, t)) : Does C i s a r t ∧ Timely C i s a := by
  obtain ⟨htime, hdoes⟩ := Option.ite_none_right_eq_some.1 h
  refine ⟨does_answers hown hdoes, fun _ hi k hk => htime hi k ?_⟩
  rcases hk with rfl | ⟨b, rfl⟩ <;> rfl

theorem started_of_timelyAnswers {C : Contract D B R} {n : ℕ} {ask : ℕ → Pool D → Bool}
    {own : D → (b : B) → R b × D} {i : ℕ} {s t : Pool D} {a : Act B} {r : a.Answer R}
    (h : timelyAnswers C n ask own true i s a = some (r, t)) (k : ℕ) :
    (⟨a, r⟩ : Event (Act.Answer R)) ≠ ⟨.start k, false⟩ :=
  started_of_answers (Option.ite_none_right_eq_some.1 h).2 k

end Answers

end Rcom.Lib.Workers
