import Rcom.Lib.Program
import Mathlib.Data.Finset.Max
import Mathlib.Logic.Hydra
import Mathlib.Tactic.Abel

/-!
# Locks that are taken in an order

A thread that holds a lock waits only for locks of a higher rank, and holds none when it returns. Of
the threads that wait, one waits for a lock whose holder does not wait. So there is always a thread
that can go on until all have returned.
-/

namespace Rcom.Lib.Program
open Rcom.Lib.Trace

variable {A : Type} {R : A → Type} {α σ L ι : Type}

/-- How the locks show: the lock that an action takes, the thread that holds a lock in a state, the
locks that a thread holds as it sees it, and their ranks. -/
structure Locking (A σ L ι : Type) where
  wants : A → Option ι
  holder : σ → ι → Option ℕ
  held : L → Set ι
  rank : ι → ℕ

namespace Locking
variable (K : Locking A σ L ι)

/-- All that an action waits for is the lock that it takes, and the threads take them in order. -/
structure Ordered (sem : ℕ → σ → (a : A) → R a → σ → Prop) (view : σ → ℕ → L) (pre : L → A → Prop)
    (Inv : σ → Prop) : Prop where
  held : ∀ s, Inv s → ∀ i l, K.holder s l = some i → l ∈ K.held (view s i)
  above : ∀ v a l, pre v a → K.wants a = some l → ∀ k ∈ K.held v, K.rank k < K.rank l
  free : ∀ i s a, Inv s → pre (view s i) a → (∀ l, K.wants a = some l → K.holder s l = none) →
    ∃ r t, sem i s a r t

/-- The threads keep to their protocol and hold no lock when they return; there are no others that
hold one. -/
structure Tidy (view : σ → ℕ → L) (loc : L → (a : A) → R a → L → Prop) (pre : L → A → Prop)
    (c : Threads σ R α) : Prop where
  thread : ∀ i p, c.2[i]? = some p → wp loc pre False (fun _ v => K.held v = ∅) p (view c.1 i)
  other : ∀ i, c.2[i]? = none → K.held (view c.1 i) = ∅

variable {K} {sem : ℕ → σ → (a : A) → R a → σ → Prop} {view : σ → ℕ → L}
variable {loc : L → (a : A) → R a → L → Prop} {pre : L → A → Prop} {Inv : σ → Prop}

theorem Tidy.step {G : ℕ → σ → A → Prop}
    (hstep : ∀ i s a r t, Inv s → pre (view s i) a → sem i s a r t → G i s a →
      Inv t ∧ loc (view s i) a r (view t i) ∧ ∀ j, j ≠ i → view t j = view s j)
    {c d : Threads σ R α} {e : ℕ × Event R} (hinv : Inv c.1) (hc : K.Tidy view loc pre c)
    (h : ThreadStep sem c e d) (hG : G e.1 c.1 e.2.1) : Inv d.1 ∧ K.Tidy view loc pre d := by
  obtain ⟨k, hk, hsem, hd⟩ := h
  have hthread := hc.thread _ _ hk
  obtain ⟨hinv', hloc, hothers⟩ := hstep _ _ _ _ _ hinv hthread.1 hsem hG
  have hlt : e.1 < c.2.length := (List.getElem?_eq_some_iff.1 hk).1
  refine ⟨hinv', fun j p hp => ?_, fun j hj => ?_⟩
  · rw [hd] at hp
    by_cases hj : j = e.1
    · subst hj
      rw [List.getElem?_set_self hlt, Option.some.injEq] at hp
      exact hp ▸ hthread.2 _ _ hloc
    · rw [List.getElem?_set_ne (fun h => hj h.symm)] at hp
      rw [hothers j hj]
      exact hc.thread j p hp
  · rw [hd] at hj
    have hne : j ≠ e.1 := by
      rintro rfl
      rw [List.getElem?_set_self hlt] at hj
      cases hj
    rw [List.getElem?_set_ne (fun h => hne h.symm)] at hj
    rw [hothers j hne]
    exact hc.other j hj

theorem Tidy.run {G : ℕ → σ → A → Prop}
    (hstep : ∀ i s a r t, Inv s → pre (view s i) a → sem i s a r t → G i s a →
      Inv t ∧ loc (view s i) a r (view t i) ∧ ∀ j, j ≠ i → view t j = view s j)
    {c d : Threads σ R α} {ms : List (Move (Threads σ R α) (ℕ × Event R))}
    (h : Run (ThreadStep sem) c ms d) (hG : ∀ m ∈ ms, G m.act.1 m.src.1 m.act.2.1) (hinv : Inv c.1)
    (hc : K.Tidy view loc pre c) : Inv d.1 ∧ K.Tidy view loc pre d :=
  h.invariant (I := fun c => Inv c.1 ∧ K.Tidy view loc pre c)
    (G := fun m => G m.act.1 m.src.1 m.act.2.1)
    (fun _ _ _ hI hs hGm => hI.2.step hstep hI.1 hs hGm) ⟨hinv, hc⟩ hG

def waits (K : Locking A σ L ι) : Prog R α → ℕ
  | .act a _ => ((K.wants a).map K.rank).getD 0
  | _ => 0

def Returned (c : Threads σ R α) : Prop := ∀ p ∈ c.2, ∃ x, p = .ret x

theorem Ordered.step (h : K.Ordered sem view pre Inv) {c : Threads σ R α} (hinv : Inv c.1)
    (hc : K.Tidy view loc pre c) : Returned c ∨ ∃ e d, ThreadStep sem c e d := by
  classical
  by_contra hno
  push Not at hno
  obtain ⟨hreturned, hstuck⟩ := hno
  have hblocked : ∀ (i : ℕ) a k, c.2[i]? = some (Prog.act a k) →
      ∃ l j, K.wants a = some l ∧ K.holder c.1 l = some j := by
    intro i a k hi
    by_contra hfree
    push Not at hfree
    obtain ⟨r, t, hsem⟩ := h.free i c.1 a hinv (hc.thread i _ hi).1 fun l hl =>
      Option.eq_none_iff_forall_ne_some.2 fun j => hfree l j hl
    exact hstuck (i, ⟨a, r⟩) (t, c.2.set i (k r)) ⟨k, hi, hsem, rfl⟩
  -- of the threads that wait, the one for the highest lock
  let waiting := (Finset.range c.2.length).filter fun i : ℕ => ∃ a k, c.2[i]? = some (Prog.act a k)
  have hnonempty : waiting.Nonempty := by
    rw [Returned] at hreturned
    push Not at hreturned
    obtain ⟨p, hp, hne⟩ := hreturned
    obtain ⟨i, hi⟩ := List.mem_iff_getElem?.1 hp
    refine ⟨i, Finset.mem_filter.2 ⟨Finset.mem_range.2 (List.getElem?_eq_some_iff.1 hi).1, ?_⟩⟩
    cases p with
    | ret x => exact absurd rfl (hne x)
    | stop => exact (hc.thread i _ hi).elim
    | act a k => exact ⟨a, k, hi⟩
  obtain ⟨i, hi, hmax⟩ := waiting.exists_max_image (fun i => ((c.2[i]?).map K.waits).getD 0) hnonempty
  obtain ⟨a, k, hi⟩ := (Finset.mem_filter.1 hi).2
  obtain ⟨l, j, hwants, hholder⟩ := hblocked i a k hi
  have hheld := h.held c.1 hinv j l hholder
  cases hj : c.2[j]? with
  | none =>
    rw [hc.other j hj] at hheld
    exact hheld
  | some q =>
    have hthread := hc.thread j q hj
    cases q with
    | ret x =>
      rw [show K.held (view c.1 j) = ∅ from hthread] at hheld
      exact hheld
    | stop => exact hthread
    | act b m =>
      obtain ⟨l', j', hwants', -⟩ := hblocked j b m hj
      have habove := h.above _ _ _ hthread.1 hwants' l hheld
      have hle := hmax j (Finset.mem_filter.2
        ⟨Finset.mem_range.2 (List.getElem?_eq_some_iff.1 hj).1, b, m, hj⟩)
      simp only [hi, hj, Option.map_some, Option.getD_some, waits, hwants, hwants'] at hle
      exact absurd habove (Nat.not_lt.2 hle)

end Locking

/-! ## No run goes on for ever -/

def Prog.Next (p q : Prog R α) : Prop := ∃ a k r, q = .act a k ∧ p = k r

theorem Prog.next_wf : WellFounded (Prog.Next (R := R) (α := α)) := by
  refine ⟨fun p => ?_⟩
  induction p with
  | ret x => exact ⟨_, fun q ⟨a, k, r, h, _⟩ => by cases h⟩
  | stop => exact ⟨_, fun q ⟨a, k, r, h, _⟩ => by cases h⟩
  | act a k ih =>
    refine ⟨_, ?_⟩
    rintro q ⟨b, m, r, heq, rfl⟩
    cases heq
    exact ih r

theorem cutExpand_of_step {sem : ℕ → σ → (a : A) → R a → σ → Prop} {c d : Threads σ R α}
    {e : ℕ × Event R} (h : ThreadStep sem c e d) :
    Relation.CutExpand Prog.Next (d.2 : Multiset (Prog R α)) (c.2 : Multiset (Prog R α)) := by
  obtain ⟨k, hk, -, hd⟩ := h
  refine ⟨{k e.2.2}, .act e.2.1 k, ?_, ?_⟩
  · intro p hp
    rw [Multiset.mem_singleton] at hp
    exact ⟨_, k, e.2.2, rfl, hp⟩
  · obtain ⟨hlt, hget⟩ := List.getElem?_eq_some_iff.1 hk
    have hsplit : c.2 = c.2.take e.1 ++ .act e.2.1 k :: c.2.drop (e.1 + 1) := by
      rw [← hget, List.cons_getElem_drop_succ, List.take_append_drop]
    rw [hd, List.set_eq_take_append_cons_drop, if_pos hlt]
    conv_rhs => rw [hsplit]
    simp only [← Multiset.coe_add, ← Multiset.cons_coe, ← Multiset.singleton_add]
    abel

namespace Locking
variable {K : Locking A σ L ι} {sem : ℕ → σ → (a : A) → R a → σ → Prop} {view : σ → ℕ → L}
variable {loc : L → (a : A) → R a → L → Prop} {pre : L → A → Prop} {Inv : σ → Prop}

/-- Any run can be continued until all threads have returned, as long as no thread is about to do what
is left out by `G`. -/
theorem Ordered.completes (h : K.Ordered sem view pre Inv) {G : ℕ → σ → A → Prop}
    (hstep : ∀ i s a r t, Inv s → pre (view s i) a → sem i s a r t → G i s a →
      Inv t ∧ loc (view s i) a r (view t i) ∧ ∀ j, j ≠ i → view t j = view s j)
    (c : Threads σ R α) (hinv : Inv c.1) (hc : K.Tidy view loc pre c) :
    ∃ ms d, Run (ThreadStep sem) c ms d ∧ (∀ m ∈ ms, G m.act.1 m.src.1 m.act.2.1) ∧
      (Returned d ∨ ∃ i a k, d.2[i]? = some (Prog.act a k) ∧ ¬G i d.1 a) := by
  have hwf : WellFounded fun d c : Threads σ R α =>
      Relation.CutExpand Prog.Next (d.2 : Multiset (Prog R α)) (c.2 : Multiset (Prog R α)) :=
    InvImage.wf (fun c : Threads σ R α => (c.2 : Multiset (Prog R α))) Prog.next_wf.cutExpand
  induction c using hwf.induction with
  | _ c ih =>
    obtain hreturned | ⟨e, d, hd⟩ := h.step hinv hc
    · exact ⟨[], c, .nil c, by simp, .inl hreturned⟩
    · by_cases hG : G e.1 c.1 e.2.1
      · obtain ⟨hinv', hc'⟩ := hc.step hstep hinv hd hG
        obtain ⟨ms, d', hrun, hms, hend⟩ := ih d (cutExpand_of_step hd) hinv' hc'
        refine ⟨_, d', .cons hd hrun, ?_, hend⟩
        rw [List.forall_mem_cons]
        exact ⟨hG, hms⟩
      · obtain ⟨k, hk, -, -⟩ := hd
        exact ⟨[], c, .nil c, by simp, .inr ⟨e.1, e.2.1, k, hk, hG⟩⟩

end Locking

end Rcom.Lib.Program
