import Mathlib.Data.List.Nodup

/-!
# Lists that are changed at their first match

A list searched from the front for a key behaves like a table: erasing (`List.eraseP`)
and updating (`updateFirst`) stop at the first element found.
-/

namespace Rcom.Lib

variable {α β : Type*}

def updateFirst (p : α → Bool) (f : α → α) : List α → List α
  | [] => []
  | a :: l => if p a then f a :: l else a :: updateFirst p f l

theorem updateFirst_nil (p : α → Bool) (f : α → α) : updateFirst p f [] = [] := rfl

theorem updateFirst_cons (p : α → Bool) (f : α → α) (a : α) (l : List α) :
    updateFirst p f (a :: l) = if p a then f a :: l else a :: updateFirst p f l := rfl

theorem updateFirst_of_forall {p : α → Bool} (f : α → α) {l : List α}
    (h : ∀ a ∈ l, p a = false) : updateFirst p f l = l := by
  induction l with
  | nil => rfl
  | cons a l ih =>
    rw [updateFirst_cons, h a (by simp), ih fun b hb => h b (by simp [hb])]
    rfl

theorem map_updateFirst (g : α → β) {p : α → Bool} {f : α → α} {q : β → Bool} {k : β → β}
    (hp : ∀ a, q (g a) = p a) (hf : ∀ a, k (g a) = g (f a)) (l : List α) :
    (updateFirst p f l).map g = updateFirst q k (l.map g) := by
  induction l with
  | nil => rfl
  | cons a l ih =>
    rw [updateFirst_cons, List.map_cons, updateFirst_cons, hp]
    split <;> simp [hf, ih]

theorem map_updateFirst_eq (g : α → β) {p : α → Bool} {f : α → α} (hf : ∀ a, g (f a) = g a)
    (l : List α) : (updateFirst p f l).map g = l.map g := by
  induction l with
  | nil => rfl
  | cons a l ih =>
    rw [updateFirst_cons]
    split <;> simp [hf, ih]

theorem mem_updateFirst {p : α → Bool} {f : α → α} {l : List α} {a : α}
    (h : a ∈ updateFirst p f l) : a ∈ l ∨ ∃ b ∈ l, p b = true ∧ a = f b := by
  induction l with
  | nil => simp [updateFirst_nil] at h
  | cons b l ih =>
    rw [updateFirst_cons] at h
    split at h
    · next hb =>
      rcases List.mem_cons.1 h with rfl | h
      · exact .inr ⟨b, by simp, hb, rfl⟩
      · exact .inl (by simp [h])
    · rcases List.mem_cons.1 h with rfl | h
      · exact .inl (by simp)
      · rcases ih h with h | ⟨c, hc, hpc, rfl⟩
        · exact .inl (by simp [h])
        · exact .inr ⟨c, by simp [hc], hpc, rfl⟩

theorem mem_updateFirst_of_neg {p : α → Bool} {f : α → α} {l : List α} {a : α} (ha : a ∈ l)
    (hp : p a = false) : a ∈ updateFirst p f l := by
  induction l with
  | nil => simp at ha
  | cons b l ih =>
    rw [updateFirst_cons]
    rcases List.mem_cons.1 ha with rfl | ha
    · simp [hp]
    · split
      · exact List.mem_cons_of_mem _ ha
      · exact List.mem_cons_of_mem _ (ih ha)

theorem exists_mem_updateFirst {p : α → Bool} (f : α → α) {l : List α} {a : α} (ha : a ∈ l)
    (hp : p a = true) : ∃ b ∈ l, p b = true ∧ f b ∈ updateFirst p f l := by
  induction l with
  | nil => simp at ha
  | cons b l ih =>
    by_cases hb : p b = true
    · exact ⟨b, by simp, hb, by simp [updateFirst_cons, hb]⟩
    · have hne : a ≠ b := fun h => hb (h ▸ hp)
      obtain ⟨c, hc, hpc, hm⟩ := ih (by simpa [hne] using ha)
      exact ⟨c, by simp [hc], hpc, by simp [updateFirst_cons, hb, hm]⟩

theorem find?_updateFirst_self {p : α → Bool} {f : α → α} (hf : ∀ a, p a = true → p (f a) = true)
    (l : List α) : (updateFirst p f l).find? p = (l.find? p).map f := by
  induction l with
  | nil => rfl
  | cons a l ih =>
    rw [updateFirst_cons]
    by_cases ha : p a = true
    · rw [if_pos ha, List.find?_cons_of_pos (hf a ha), List.find?_cons_of_pos ha, Option.map_some]
    · rw [if_neg ha, List.find?_cons_of_neg ha, List.find?_cons_of_neg ha, ih]

theorem find?_updateFirst_of_disjoint {p q : α → Bool} {f : α → α}
    (h : ∀ a, p a = true → q a = false ∧ q (f a) = false) (l : List α) :
    (updateFirst p f l).find? q = l.find? q := by
  induction l with
  | nil => rfl
  | cons a l ih =>
    rw [updateFirst_cons]
    by_cases ha : p a = true
    · obtain ⟨hq, hqf⟩ := h a ha
      rw [if_pos ha, List.find?_cons_of_neg (by simp [hqf]), List.find?_cons_of_neg (by simp [hq])]
    · rw [if_neg ha, List.find?_cons, List.find?_cons, ih]

/-! ## Distinct keys -/

section Keys
variable [DecidableEq β] {g : α → β} {l : List α}

theorem find?_key (h : (l.map g).Nodup) {a : α} (ha : a ∈ l) :
    l.find? (fun b => g b = g a) = some a := by
  induction l with
  | nil => simp at ha
  | cons b l ih =>
    obtain ⟨hb, hl⟩ := List.nodup_cons.1 h
    rcases List.mem_cons.1 ha with rfl | ha
    · simp
    · have hne : g b ≠ g a := fun hk => hb (hk ▸ List.mem_map_of_mem ha)
      rw [List.find?_cons_of_neg (by simpa using hne), ih hl ha]

theorem eraseP_key (h : (l.map g).Nodup) (k : β) :
    l.eraseP (fun b => g b = k) = l.filter fun b => g b ≠ k := by
  induction l with
  | nil => rfl
  | cons b l ih =>
    obtain ⟨hb, hl⟩ := List.nodup_cons.1 h
    by_cases hk : g b = k
    · have hrest : ∀ c ∈ l, g c ≠ k := fun c hc hck => hb (hk.trans hck.symm ▸ List.mem_map_of_mem hc)
      rw [List.eraseP_cons_of_pos (by simpa using hk), List.filter_cons_of_neg (by simpa using hk)]
      exact (List.filter_eq_self.2 fun c hc => by simpa using hrest c hc).symm
    · rw [List.eraseP_cons_of_neg (by simpa using hk), List.filter_cons_of_pos (by simpa using hk),
        ih hl]

theorem foldl_eraseP_key (h : (l.map g).Nodup) (rm : List α) :
    rm.foldl (fun l a => l.eraseP fun b => g b = g a) l = l.filter fun b => g b ∉ rm.map g := by
  induction rm generalizing l with
  | nil => simp
  | cons a rm ih =>
    have hrest : ((l.filter fun b => g b ≠ g a).map g).Nodup :=
      h.sublist (List.filter_sublist.map g)
    rw [List.foldl_cons, eraseP_key h, ih hrest, List.filter_filter]
    refine List.filter_congr fun b _ => ?_
    by_cases hb : g b = g a <;> simp [hb]

theorem mem_eraseP_key (h : (l.map g).Nodup) {k : β} {a : α} :
    a ∈ l.eraseP (fun b => g b = k) ↔ a ∈ l ∧ g a ≠ k := by
  rw [eraseP_key h, List.mem_filter, decide_eq_true_iff]

theorem mem_updateFirst_key (h : (l.map g).Nodup) {k : β} {f : α → α} {a : α} :
    a ∈ updateFirst (fun b => g b = k) f l ↔ (a ∈ l ∧ g a ≠ k) ∨ ∃ b ∈ l, g b = k ∧ a = f b := by
  constructor
  · intro ha
    induction l with
    | nil => simp [updateFirst_nil] at ha
    | cons b l ih =>
      obtain ⟨hb, hl⟩ := List.nodup_cons.1 h
      rw [updateFirst_cons] at ha
      split at ha
      · next hk =>
        replace hk : g b = k := by simpa using hk
        rcases List.mem_cons.1 ha with rfl | ha
        · exact .inr ⟨b, by simp, hk, rfl⟩
        · exact .inl ⟨by simp [ha], fun hka => hb (hk.trans hka.symm ▸ List.mem_map_of_mem ha)⟩
      · next hk =>
        rcases List.mem_cons.1 ha with rfl | ha
        · exact .inl ⟨by simp, by simpa using hk⟩
        · rcases ih hl ha with ⟨ha, hka⟩ | ⟨c, hc, hkc, rfl⟩
          · exact .inl ⟨by simp [ha], hka⟩
          · exact .inr ⟨c, by simp [hc], hkc, rfl⟩
  · rintro (⟨ha, hka⟩ | ⟨b, hb, hkb, rfl⟩)
    · exact mem_updateFirst_of_neg ha (by simpa using hka)
    · obtain ⟨c, hc, hkc, hmem⟩ :=
        @exists_mem_updateFirst _ (fun b => decide (g b = k)) f l b hb (by simpa using hkb)
      have hkc : g c = k := by simpa using hkc
      exact List.inj_on_of_nodup_map h hc hb (hkc.trans hkb.symm) ▸ hmem

end Keys
end Rcom.Lib
