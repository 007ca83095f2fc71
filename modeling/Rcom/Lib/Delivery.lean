import Mathlib.Data.List.Forall2

/-!
# Messages that wait at several senders

Each sender holds a list of messages in the order in which it will send them, and what
is sent goes to the end of one queue. Sending reorders the messages of different
senders; the messages that a property selects keep their order as long as none of them
waits at an earlier sender.
-/

namespace Rcom.Lib.Delivery

variable {α : Type*}

/-- What has been sent and what waits, in the order in which it was produced. -/
def outstanding (queue : List α) (waiting : List (List α)) : List α := queue ++ waiting.flatten

theorem flatten_split {waiting : List (List α)} {i : ℕ} {as : List α} (h : waiting[i]? = some as) :
    waiting.flatten = (waiting.take i).flatten ++ (as ++ (waiting.drop (i + 1)).flatten) := by
  obtain ⟨hi, rfl⟩ := List.getElem?_eq_some_iff.1 h
  conv_lhs => rw [← List.take_append_drop i waiting, List.drop_eq_getElem_cons hi]
  rw [List.flatten_append, List.flatten_cons]

theorem flatten_set {waiting : List (List α)} {i : ℕ} {as : List α} (h : waiting[i]? = some as)
    (bs : List α) :
    (waiting.set i bs).flatten =
      (waiting.take i).flatten ++ (bs ++ (waiting.drop (i + 1)).flatten) := by
  obtain ⟨hi, -⟩ := List.getElem?_eq_some_iff.1 h
  rw [List.set_eq_take_append_cons_drop, if_pos hi, List.flatten_append, List.flatten_cons]

theorem filter_send {p : α → Bool} {queue : List α} {waiting : List (List α)} {i : ℕ} {a : α}
    {as : List α} (h : waiting[i]? = some (a :: as))
    (hp : p a = true → ∀ b ∈ (waiting.take i).flatten, p b = false) :
    (outstanding (queue ++ [a]) (waiting.set i as)).filter p =
      (outstanding queue waiting).filter p := by
  rw [outstanding, outstanding, flatten_split h, flatten_set h]
  simp only [List.filter_append, List.append_assoc, List.cons_append]
  congr 1
  cases hpa : p a with
  | false => simp [hpa]
  | true =>
    have hnone : (waiting.take i).flatten.filter p = [] :=
      List.filter_eq_nil_iff.2 fun b hb => by simp [hp hpa b hb]
    simp [hpa, hnone]

/-! ## Lists related element by element -/

section Forall₂
variable {β : Type*} {R : α → β → Prop} {l : List α} {l' : List β}

theorem forall₂_getElem? (h : List.Forall₂ R l l') {i : ℕ} {a : α} (ha : l[i]? = some a) :
    ∃ b, l'[i]? = some b ∧ R a b := by
  induction h generalizing i with
  | nil => simp at ha
  | cons hr _ ih =>
    cases i with
    | zero =>
      rw [List.getElem?_cons_zero, Option.some.injEq] at ha
      exact ⟨_, List.getElem?_cons_zero, ha ▸ hr⟩
    | succ i =>
      rw [List.getElem?_cons_succ] at ha ⊢
      exact ih ha

theorem forall₂_set (h : List.Forall₂ R l l') {a : α} {b : β} (hab : R a b) (i : ℕ) :
    List.Forall₂ R (l.set i a) (l'.set i b) := by
  induction h generalizing i with
  | nil => exact .nil
  | cons hr hl ih =>
    cases i with
    | zero => exact .cons hab hl
    | succ i => exact .cons hr (ih i)

theorem forall₂_append (h : List.Forall₂ R l l') {m : List α} {m' : List β}
    (hm : List.Forall₂ R m m') : List.Forall₂ R (l ++ m) (l' ++ m') := by
  induction h with
  | nil => exact hm
  | cons hr _ ih => exact .cons hr ih

theorem forall₂_exists_left (h : List.Forall₂ R l l') {b : β} (hb : b ∈ l') : ∃ a ∈ l, R a b := by
  induction h with
  | nil => cases hb
  | @cons a _ _ _ hr _ ih =>
    rcases List.mem_cons.1 hb with rfl | hb
    · exact ⟨a, List.mem_cons_self, hr⟩
    · obtain ⟨a', ha', hr'⟩ := ih hb
      exact ⟨a', List.mem_cons_of_mem _ ha', hr'⟩

end Forall₂

end Rcom.Lib.Delivery
