import Rcom.Lib.Trace

/-!
# Programs that do actions

A program does one action after the other and goes on with the answers. What an action
does, and which answers it can get, is given apart from the program, so that one text can
be looked at with different states in mind. `wp` is the weakest precondition of a program;
its rules follow the text. A loop takes its number of rounds; when they are used up the
program is not followed further (`stop`).
-/

namespace Rcom.Lib.Program
open Rcom.Lib.Trace

inductive Prog {A : Type} (R : A → Type) (α : Type) where
  | ret (x : α)
  | stop
  | act (a : A) (k : R a → Prog R α)

variable {A : Type} {R : A → Type} {α β σ : Type}

namespace Prog

def bind : Prog R α → (α → Prog R β) → Prog R β
  | .ret x, f => f x
  | .stop, _ => .stop
  | .act a k, f => .act a fun r => (k r).bind f

instance : Monad (Prog R) where
  pure := .ret
  bind := bind

@[simp] theorem pure_eq (x : α) : (pure x : Prog R α) = .ret x := rfl

@[simp] theorem ret_bind (x : α) (f : α → Prog R β) : (Prog.ret x >>= f) = f x := rfl

@[simp] theorem stop_bind (f : α → Prog R β) : ((.stop : Prog R α) >>= f) = .stop := rfl

@[simp] theorem act_bind (a : A) (k : R a → Prog R α) (f : α → Prog R β) :
    (Prog.act a k >>= f) = .act a fun r => k r >>= f := rfl

@[simp] theorem bind_ret (p : Prog R α) : (p >>= Prog.ret) = p := by
  induction p with
  | ret x => rfl
  | stop => rfl
  | act a k ih =>
    rw [act_bind]
    exact congrArg (Prog.act a) (funext ih)

end Prog

def perform (a : A) : Prog R (R a) := .act a .ret

@[simp] theorem perform_bind (a : A) (f : R a → Prog R β) : (perform a >>= f) = .act a f := rfl

/-! ## Weakest preconditions -/

section Wp
variable (sem : σ → (a : A) → R a → σ → Prop) (pre : σ → A → Prop) (halt : Prop)

/-- Every action meets `pre` when it is done, the rounds only run out if `halt` holds, and what is
returned meets `Q`. -/
def wp (Q : α → σ → Prop) : Prog R α → σ → Prop
  | .ret x, s => Q x s
  | .stop, _ => halt
  | .act a k, s => pre s a ∧ ∀ r t, sem s a r t → wp Q (k r) t

variable {sem pre halt}

@[simp] theorem wp_ret {Q : α → σ → Prop} {x : α} {s : σ} :
    wp sem pre halt Q (.ret x) s ↔ Q x s := Iff.rfl

@[simp] theorem wp_stop {Q : α → σ → Prop} {s : σ} : wp sem pre halt Q .stop s ↔ halt := Iff.rfl

theorem wp_act {Q : α → σ → Prop} {a : A} {k : R a → Prog R α} {s : σ} :
    wp sem pre halt Q (.act a k) s ↔ pre s a ∧ ∀ r t, sem s a r t → wp sem pre halt Q (k r) t :=
  Iff.rfl

theorem wp_bind {Q : β → σ → Prop} {p : Prog R α} {f : α → Prog R β} {s : σ} :
    wp sem pre halt Q (p >>= f) s ↔ wp sem pre halt (fun x => wp sem pre halt Q (f x)) p s := by
  induction p generalizing s with
  | ret x => exact Iff.rfl
  | stop => exact Iff.rfl
  | act a k ih =>
    rw [Prog.act_bind, wp_act, wp_act]
    simp only [ih]

theorem wp_mono {Q Q' : α → σ → Prop} {p : Prog R α} {s : σ} (h : wp sem pre halt Q p s)
    (hQ : ∀ x t, Q x t → Q' x t) : wp sem pre halt Q' p s := by
  induction p generalizing s with
  | ret x => exact hQ x s h
  | stop => exact h
  | act a k ih => exact ⟨h.1, fun r t hr => ih r (h.2 r t hr)⟩

end Wp

/-! ## Programs that do only some of the actions -/

/-- Every action that the program can come to is one of `P`. -/
def Only (P : A → Prop) : Prog R α → Prop
  | .ret _ => True
  | .stop => True
  | .act a k => P a ∧ ∀ r, Only P (k r)

section Only
variable {P : A → Prop}

@[simp] theorem only_ret {x : α} : Only P (.ret x : Prog R α) ↔ True := Iff.rfl

@[simp] theorem only_stop : Only P (.stop : Prog R α) ↔ True := Iff.rfl

@[simp] theorem only_act {a : A} {k : R a → Prog R α} :
    Only P (.act a k) ↔ P a ∧ ∀ r, Only P (k r) := Iff.rfl

theorem only_bind {p : Prog R α} {f : α → Prog R β} (hp : Only P p) (hf : ∀ x, Only P (f x)) :
    Only P (p >>= f) := by
  induction p with
  | ret x => exact hf x
  | stop => trivial
  | act a k ih => exact ⟨hp.1, fun r => ih r (hp.2 r)⟩

theorem wp_of_only {sem : σ → (a : A) → R a → σ → Prop} {pre : σ → A → Prop} {I : σ → Prop}
    {Q : α → σ → Prop} {p : Prog R α} {s : σ} (h : Only P p)
    (hkeep : ∀ s a, P a → I s → pre s a ∧ ∀ r t, sem s a r t → I t) (hs : I s)
    (hQ : ∀ x t, I t → Q x t) : wp sem pre True Q p s := by
  induction p generalizing s with
  | ret x => exact hQ x s hs
  | stop => trivial
  | act a k ih =>
    obtain ⟨hpre, hsem⟩ := hkeep s a h.1 hs
    exact ⟨hpre, fun r t ht => ih r (h.2 r) (hsem r t ht)⟩

end Only

/-! ## Runs of one program -/

abbrev Event (R : A → Type) := (a : A) × R a

abbrev Config (σ : Type) (R : A → Type) (α : Type) := σ × Prog R α

def Steps (sem : σ → (a : A) → R a → σ → Prop) (c : Config σ R α) (e : Event R)
    (d : Config σ R α) : Prop :=
  ∃ k, c.2 = .act e.1 k ∧ sem c.1 e.1 e.2 d.1 ∧ d.2 = k e.2

section Runs
variable {sem sem' : σ → (a : A) → R a → σ → Prop} {pre : σ → A → Prop} {halt : Prop}
variable {Q : α → σ → Prop}

/-- A precondition for a narrower meaning of the actions holds through the runs whose moves keep
to that meaning. -/
theorem wp_run {G : σ → Event R → Prop} (hsem : ∀ s a r t, sem s a r t → G s ⟨a, r⟩ → sem' s a r t)
    {c d : Config σ R α} {ms : List (Move (Config σ R α) (Event R))}
    (h : Run (Steps sem) c ms d) (hG : ∀ m ∈ ms, G m.src.1 m.act)
    (hc : wp sem' pre halt Q c.2 c.1) : wp sem' pre halt Q d.2 d.1 := by
  refine h.invariant (I := fun c => wp sem' pre halt Q c.2 c.1) (G := fun m => G m.src.1 m.act)
    ?_ hc hG
  intro c e d hc hstep hG
  obtain ⟨k, hk, hs, hd⟩ := hstep
  rw [hk] at hc
  rw [hd]
  exact hc.2 _ _ (hsem _ _ _ _ hs hG)

theorem wp_steps {c d : Config σ R α} {ms : List (Move (Config σ R α) (Event R))}
    (h : Run (Steps sem) c ms d) (hc : wp sem pre halt Q c.2 c.1) : wp sem pre halt Q d.2 d.1 := by
  refine h.invariant (I := fun c => wp sem pre halt Q c.2 c.1) (G := fun _ => True) ?_ hc
    fun _ _ => trivial
  intro c e d hc hstep _
  obtain ⟨k, hk, hsem, hd⟩ := hstep
  rw [hk] at hc
  rw [hd]
  exact hc.2 _ _ hsem

/-- Where every action has an answer of a narrower meaning, some run with only such answers comes to
the end. -/
theorem exists_return (hsem : ∀ s a r t, sem' s a r t → sem s a r t)
    (htotal : ∀ s a, ∃ r t, sem' s a r t) {p : Prog R α} {s : σ}
    (h : wp sem pre False Q p s) :
    ∃ ms x t, Run (Steps sem) (s, p) ms (t, .ret x) ∧
      (∀ m ∈ ms, sem' m.src.1 m.act.1 m.act.2 m.dst.1) ∧ Q x t := by
  induction p generalizing s with
  | ret x => exact ⟨[], x, s, .nil _, by simp, h⟩
  | stop => exact absurd h id
  | act a k ih =>
    obtain ⟨r, t, hr⟩ := htotal s a
    have hr' := hsem s a r t hr
    obtain ⟨ms, x, u, hrun, hms, hQ⟩ := ih r (h.2 r t hr')
    refine ⟨⟨(s, .act a k), ⟨a, r⟩, (t, k r)⟩ :: ms, x, u, .cons ⟨k, rfl, hr', rfl⟩ hrun, ?_, hQ⟩
    simp only [List.mem_cons, forall_eq_or_imp]
    exact ⟨hr, hms⟩

end Runs

/-! ## Programs that come to the end -/

/-- The program can return `x` and leave the state `t`. -/
def Finishes (sem : σ → (a : A) → R a → σ → Prop) : Prog R α → σ → α → σ → Prop
  | .ret x, s, y, t => y = x ∧ t = s
  | .stop, _, _, _ => False
  | .act a k, s, y, t => ∃ r u, sem s a r u ∧ Finishes sem (k r) u y t

section Finishes
variable {sem : σ → (a : A) → R a → σ → Prop} {pre : σ → A → Prop} {halt : Prop}
variable {p : Prog R α} {s t : σ} {x : α}

theorem finishes_iff_run : Finishes sem p s x t ↔ ∃ ms, Run (Steps sem) (s, p) ms (t, .ret x) := by
  induction p generalizing s with
  | ret y =>
    constructor
    · rintro ⟨rfl, rfl⟩
      exact ⟨[], .nil _⟩
    · rintro ⟨ms, h⟩
      cases h with
      | nil => exact ⟨rfl, rfl⟩
      | cons hstep _ =>
        obtain ⟨k, hk, -⟩ := hstep
        cases hk
  | stop =>
    constructor
    · exact False.elim
    · rintro ⟨ms, h⟩
      cases h with
      | cons hstep _ =>
        obtain ⟨k, hk, -⟩ := hstep
        cases hk
  | act a k ih =>
    constructor
    · rintro ⟨r, u, hsem, hrest⟩
      obtain ⟨ms, hms⟩ := (ih r).1 hrest
      exact ⟨⟨(s, .act a k), ⟨a, r⟩, (u, k r)⟩ :: ms, .cons ⟨k, rfl, hsem, rfl⟩ hms⟩
    · rintro ⟨ms, h⟩
      cases h with
      | @cons _ d _ e _ hstep hrest =>
        obtain ⟨u, q⟩ := d
        obtain ⟨k', hk, hsem, rfl⟩ := hstep
        cases hk
        exact ⟨_, u, hsem, (ih _).2 ⟨_, hrest⟩⟩

theorem finishes_bind {f : α → Prog R β} {y : β} :
    Finishes sem (p >>= f) s y t ↔ ∃ x u, Finishes sem p s x u ∧ Finishes sem (f x) u y t := by
  induction p generalizing s with
  | ret x =>
    constructor
    · intro h
      exact ⟨x, s, ⟨rfl, rfl⟩, h⟩
    · rintro ⟨x', u, ⟨rfl, rfl⟩, h⟩
      exact h
  | stop =>
    constructor
    · exact False.elim
    · rintro ⟨_, _, h, _⟩
      exact h
  | act a k ih =>
    constructor
    · rintro ⟨r, v, hsem, hrest⟩
      obtain ⟨x, u, hx, hy⟩ := (ih r).1 hrest
      exact ⟨x, u, ⟨r, v, hsem, hx⟩, hy⟩
    · rintro ⟨x, u, ⟨r, v, hsem, hx⟩, hy⟩
      exact ⟨r, v, hsem, (ih r).2 ⟨x, u, hx, hy⟩⟩

theorem Finishes.of_wp {Q : α → σ → Prop} (h : Finishes sem p s x t) (hp : wp sem pre halt Q p s) :
    Q x t := by
  induction p generalizing s with
  | ret y =>
    obtain ⟨rfl, rfl⟩ := h
    exact hp
  | stop => exact h.elim
  | act a k ih =>
    obtain ⟨r, u, hsem, hrest⟩ := h
    exact ih r hrest (hp.2 r u hsem)

theorem Finishes.invariant {I : σ → Prop} (hstep : ∀ s a r t, I s → sem s a r t → I t)
    (h : Finishes sem p s x t) (hs : I s) : I t := by
  induction p generalizing s with
  | ret y =>
    obtain ⟨-, rfl⟩ := h
    exact hs
  | stop => exact h.elim
  | act a k ih =>
    obtain ⟨r, u, hsem, hrest⟩ := h
    exact ih r hrest (hstep s a r u hs hsem)

end Finishes

section Follow
variable {sem : σ → (a : A) → R a → σ → Prop}

/-- The program with the answers that the state gives, up to an action that cannot be done. -/
def follow (answer : σ → (a : A) → R a) (next : σ → A → Option σ) : Prog R α → σ → Config σ R α
  | .ret x, s => (s, .ret x)
  | .stop, s => (s, .stop)
  | .act a k, s =>
    match next s a with
    | none => (s, .act a k)
    | some t => follow answer next (k (answer s a)) t

theorem run_follow {answer : σ → (a : A) → R a} {next : σ → A → Option σ} {G : σ → Event R → Prop}
    (h : ∀ s a t, next s a = some t → sem s a (answer s a) t ∧ G s ⟨a, answer s a⟩)
    (p : Prog R α) (s : σ) :
    ∃ ms, Run (Steps sem) (s, p) ms (follow answer next p s) ∧ ∀ m ∈ ms, G m.src.1 m.act := by
  induction p generalizing s with
  | ret x => exact ⟨[], .nil _, by simp⟩
  | stop => exact ⟨[], .nil _, by simp⟩
  | act a k ih =>
    rw [follow]
    cases hnext : next s a with
    | none => exact ⟨[], .nil _, by simp⟩
    | some t =>
      obtain ⟨hsem, hG⟩ := h s a t hnext
      obtain ⟨ms, hrun, hms⟩ := ih (answer s a) t
      refine ⟨⟨(s, .act a k), ⟨a, answer s a⟩, (t, k (answer s a))⟩ :: ms,
        .cons ⟨k, rfl, hsem, rfl⟩ hrun, ?_⟩
      simp only [List.mem_cons, forall_eq_or_imp]
      exact ⟨hG, hms⟩

end Follow

/-! ## Programs inside others -/

section Through
variable {B : Type} {S : B → Type} {f : B → A} {answer : ∀ b, R (f b) → S b}

def Prog.through (f : B → A) (answer : ∀ b, R (f b) → S b) : Prog S α → Prog R α
  | .ret x => .ret x
  | .stop => .stop
  | .act b k => .act (f b) fun r => (k (answer b r)).through f answer

/-- What is proved of the program by itself, for a part of the state, holds for it inside another. -/
theorem wp_through {τ : Type} {v : σ → τ} {I : σ → Prop}
    {sem : σ → (a : A) → R a → σ → Prop} {pre : σ → A → Prop} {sem' : τ → (b : B) → S b → τ → Prop}
    {pre' : τ → B → Prop} {halt : Prop} {Q : α → σ → Prop} {Q' : α → τ → Prop}
    (hpre : ∀ s b, I s → pre' (v s) b → pre s (f b))
    (hstep : ∀ s b r t, I s → pre' (v s) b → sem s (f b) r t →
      I t ∧ sem' (v s) b (answer b r) (v t))
    (hQ : ∀ x s, I s → Q' x (v s) → Q x s) {p : Prog S α} {s : σ} (hs : I s)
    (h : wp sem' pre' halt Q' p (v s)) : wp sem pre halt Q (p.through f answer) s := by
  induction p generalizing s with
  | ret x => exact hQ x s hs h
  | stop => exact h
  | act b k ih =>
    refine ⟨hpre s b hs h.1, fun r t ht => ?_⟩
    obtain ⟨hI, hsem⟩ := hstep s b r t hs h.1 ht
    exact ih (answer b r) hI (h.2 _ _ hsem)

end Through

/-! ## Programs that call back -/

/-- A program that is given its answers by a handler with a state of its own: what it did, what it
returned, and the state of the handler afterwards. -/
def interpret (handle : σ → (a : A) → Option (R a × σ)) :
    Prog R α → σ → Option (List (Event R) × α × σ)
  | .ret x, s => some ([], x, s)
  | .stop, _ => none
  | .act a k, s =>
    (handle s a).bind fun (r, s) =>
      (interpret handle (k r) s).map fun (es, x, s) => (⟨a, r⟩ :: es, x, s)

def Does : Prog R α → List (Event R) → α → Prop
  | .ret x, es, y => es = [] ∧ y = x
  | .stop, _, _ => False
  | .act a k, es, y => ∃ r es', es = ⟨a, r⟩ :: es' ∧ Does (k r) es' y

theorem does_of_interpret {handle : σ → (a : A) → Option (R a × σ)} {p : Prog R α} {s s' : σ}
    {es : List (Event R)} {x : α} (h : interpret handle p s = some (es, x, s')) : Does p es x := by
  induction p generalizing s es with
  | ret y =>
    cases h
    exact ⟨rfl, rfl⟩
  | stop => simp [interpret] at h
  | act a k ih =>
    obtain ⟨⟨r, t⟩, _, hrest⟩ := Option.bind_eq_some_iff.1 h
    obtain ⟨⟨es', y, u⟩, hk, heq⟩ := Option.map_eq_some_iff.1 hrest
    cases heq
    exact ⟨r, es', rfl, ih r hk⟩

theorem does_bind {p : Prog R α} {f : α → Prog R β} {es : List (Event R)} {y : β} :
    Does (p >>= f) es y ↔ ∃ es₁ es₂ x, es = es₁ ++ es₂ ∧ Does p es₁ x ∧ Does (f x) es₂ y := by
  induction p generalizing es with
  | ret x =>
    constructor
    · intro h
      exact ⟨[], es, x, rfl, ⟨rfl, rfl⟩, h⟩
    · rintro ⟨es₁, es₂, x', rfl, ⟨rfl, rfl⟩, h⟩
      exact h
  | stop =>
    constructor
    · intro h
      exact h.elim
    · rintro ⟨_, _, _, _, h, _⟩
      exact h.elim
  | act a k ih =>
    rw [Prog.act_bind]
    constructor
    · rintro ⟨r, es', rfl, h⟩
      obtain ⟨es₁, es₂, x, rfl, h₁, h₂⟩ := (ih r).1 h
      exact ⟨⟨a, r⟩ :: es₁, es₂, x, rfl, ⟨r, es₁, rfl, h₁⟩, h₂⟩
    · rintro ⟨es₁, es₂, x, rfl, ⟨r, es', rfl, h₁⟩, h₂⟩
      exact ⟨r, es' ++ es₂, rfl, (ih r).2 ⟨es', es₂, x, rfl, h₁, h₂⟩⟩

/-- What each callback preserves, with what has been done so far, is preserved. -/
theorem interpret_invariant {handle : σ → (a : A) → Option (R a × σ)}
    {I : List (Event R) → σ → Prop}
    (hstep : ∀ es s a r t, I es s → handle s a = some (r, t) → I (es ++ [⟨a, r⟩]) t)
    {p : Prog R α} {s s' : σ} {es done : List (Event R)} {x : α}
    (h : interpret handle p s = some (es, x, s')) (hs : I done s) : I (done ++ es) s' := by
  induction p generalizing s es done with
  | ret y =>
    cases h
    rw [List.append_nil]
    exact hs
  | stop => simp [interpret] at h
  | act a k ih =>
    obtain ⟨⟨r, t⟩, hhandle, hrest⟩ := Option.bind_eq_some_iff.1 h
    obtain ⟨⟨es', y, u⟩, hk, heq⟩ := Option.map_eq_some_iff.1 hrest
    cases heq
    have hnext := ih r hk (hstep done s a r t hs hhandle)
    rwa [List.append_assoc, List.singleton_append] at hnext

/-- After these events, with the handler in this state, the program asks for `a`. -/
def Asks (handle : σ → (a : A) → Option (R a × σ)) :
    Prog R α → σ → List (Event R) → A → σ → Prop
  | .ret _, _, _, _, _ => False
  | .stop, _, _, _, _ => False
  | .act b k, s, es, a, s' => (es = [] ∧ a = b ∧ s' = s) ∨
      ∃ r t es', handle s b = some (r, t) ∧ es = ⟨b, r⟩ :: es' ∧ Asks handle (k r) t es' a s'

theorem asks_invariant {handle : σ → (a : A) → Option (R a × σ)}
    {I : List (Event R) → σ → Prop}
    (hstep : ∀ es s a r t, I es s → handle s a = some (r, t) → I (es ++ [⟨a, r⟩]) t)
    {p : Prog R α} {s s' : σ} {es done : List (Event R)} {a : A} (h : Asks handle p s es a s')
    (hs : I done s) : I (done ++ es) s' := by
  induction p generalizing s es done with
  | ret y => exact h.elim
  | stop => exact h.elim
  | act b k ih =>
    rcases h with ⟨hes, _, hs'⟩ | ⟨r, t, es', hhandle, hes, hrest⟩
    · rw [hes, hs', List.append_nil]
      exact hs
    · have hnext := ih r hrest (hstep done s b r t hs hhandle)
      rwa [List.append_assoc, List.singleton_append, ← hes] at hnext

def Logs (done : List (Event R)) (a : A) (r : R a) (done' : List (Event R)) : Prop :=
  done' = done ++ [⟨a, r⟩]

/-- What a precondition says about what has been done, whatever the answers are. -/
theorem does_of_wp {Q : α → List (Event R) → Prop} {p : Prog R α} {done es : List (Event R)} {x : α}
    (h : wp Logs (fun _ _ => True) True Q p done) (hdoes : Does p es x) : Q x (done ++ es) := by
  induction p generalizing done es with
  | ret y =>
    rw [hdoes.1, hdoes.2, List.append_nil]
    exact h
  | stop => exact hdoes.elim
  | act a k ih =>
    obtain ⟨r, es', hes, hrest⟩ := hdoes
    have hnext := ih r (h.2 r _ rfl) hrest
    rwa [List.append_assoc, List.singleton_append, ← hes] at hnext

/-! ## Threads -/

abbrev Threads (σ : Type) (R : A → Type) (α : Type) := σ × List (Prog R α)

/-- Thread `e.1` does its next action. -/
def ThreadStep (sem : ℕ → σ → (a : A) → R a → σ → Prop) (c : Threads σ R α) (e : ℕ × Event R)
    (d : Threads σ R α) : Prop :=
  ∃ k, c.2[e.1]? = some (.act e.2.1 k) ∧ sem e.1 c.1 e.2.1 e.2.2 d.1 ∧ d.2 = c.2.set e.1 (k e.2.2)

section Threads
variable {L : Type} {sem : ℕ → σ → (a : A) → R a → σ → Prop} {view : σ → ℕ → L}
variable {loc : L → (a : A) → R a → L → Prop} {pre : L → A → Prop} {Inv : σ → Prop}

/-- Each thread keeps to its protocol, as seen in its own view of the state, and returns what was
agreed. -/
def Complies (view : σ → ℕ → L) (loc : L → (a : A) → R a → L → Prop) (pre : L → A → Prop)
    (post : ℕ → α → L → Prop) (c : Threads σ R α) : Prop :=
  ∀ i p, c.2[i]? = some p → wp loc pre True (post i) p (view c.1 i)

/-- Each thread keeps to its protocol, as seen in its own view of the state. -/
def Conform (view : σ → ℕ → L) (loc : L → (a : A) → R a → L → Prop) (pre : L → A → Prop)
    (c : Threads σ R α) : Prop :=
  ∀ i p, c.2[i]? = some p → wp loc pre True (fun _ _ => True) p (view c.1 i)

theorem complies_run {G : ℕ → σ → (a : A) → R a → σ → Prop} {post : ℕ → α → L → Prop}
    (hstep : ∀ i s a r t, Inv s → pre (view s i) a → sem i s a r t → G i s a r t →
      Inv t ∧ loc (view s i) a r (view t i) ∧ ∀ j, j ≠ i → view t j = view s j)
    {c d : Threads σ R α} {ms : List (Move (Threads σ R α) (ℕ × Event R))}
    (h : Run (ThreadStep sem) c ms d)
    (hG : ∀ m ∈ ms, G m.act.1 m.src.1 m.act.2.1 m.act.2.2 m.dst.1) (hc : Inv c.1)
    (hconform : Complies view loc pre post c) : Inv d.1 ∧ Complies view loc pre post d := by
  refine h.invariant (I := fun c => Inv c.1 ∧ Complies view loc pre post c)
    (G := fun m => G m.act.1 m.src.1 m.act.2.1 m.act.2.2 m.dst.1) ?_ ⟨hc, hconform⟩ hG
  intro c e d hI hs hGm
  obtain ⟨hinv, hconf⟩ := hI
  obtain ⟨k, hk, hsem, hd⟩ := hs
  have hthread := hconf _ _ hk
  obtain ⟨hinv', hloc, hothers⟩ := hstep _ _ _ _ _ hinv hthread.1 hsem hGm
  refine ⟨hinv', fun j p hp => ?_⟩
  rw [hd] at hp
  by_cases hj : j = e.1
  · subst hj
    have hlt : e.1 < c.2.length := (List.getElem?_eq_some_iff.1 hk).1
    rw [List.getElem?_set_self hlt, Option.some.injEq] at hp
    exact hp ▸ hthread.2 _ _ hloc
  · rw [List.getElem?_set_ne (fun h => hj h.symm)] at hp
    rw [hothers j hj]
    exact hconf j p hp

/-- What each action of a thread that keeps to its protocol preserves holds through a run. -/
theorem threads_run {G : ℕ → σ → (a : A) → R a → σ → Prop}
    (hstep : ∀ i s a r t, Inv s → pre (view s i) a → sem i s a r t → G i s a r t →
      Inv t ∧ loc (view s i) a r (view t i) ∧ ∀ j, j ≠ i → view t j = view s j)
    {c d : Threads σ R α} {ms : List (Move (Threads σ R α) (ℕ × Event R))}
    (h : Run (ThreadStep sem) c ms d)
    (hG : ∀ m ∈ ms, G m.act.1 m.src.1 m.act.2.1 m.act.2.2 m.dst.1) (hc : Inv c.1)
    (hconform : Conform view loc pre c) : Inv d.1 ∧ Conform view loc pre d :=
  @complies_run A R α σ L sem view loc pre Inv G (fun _ _ _ => True) hstep c d ms h hG hc hconform

/-- Threads that do only some of the actions do no others in a run. -/
theorem only_run {P : A → Prop} {c d : Threads σ R α} {ms : List (Move (Threads σ R α) (ℕ × Event R))}
    (h : Run (ThreadStep sem) c ms d) (hc : ∀ p ∈ c.2, Only P p) : ∀ m ∈ ms, P m.act.2.1 := by
  induction h with
  | nil => simp
  | cons hstep _ ih =>
    obtain ⟨k, hk, -, hd⟩ := hstep
    have hthread := hc _ (List.mem_of_getElem? hk)
    rw [List.forall_mem_cons]
    refine ⟨hthread.1, ih fun p hp => ?_⟩
    rw [hd] at hp
    rcases List.mem_or_eq_of_mem_set hp with hp | rfl
    · exact hc p hp
    · exact hthread.2 _

theorem run_thread {i : ℕ} {G : σ → Event R → Prop} {c d : Config σ R α}
    {ms : List (Move (Config σ R α) (Event R))} (h : Run (Steps (sem i)) c ms d)
    (hG : ∀ m ∈ ms, G m.src.1 m.act) {ps : List (Prog R α)} (hi : ps[i]? = some c.2) :
    ∃ ms', Run (ThreadStep sem) (c.1, ps) ms' (d.1, ps.set i d.2) ∧
      ∀ m ∈ ms', m.act.1 = i ∧ G m.src.1 m.act.2 := by
  induction h generalizing ps with
  | nil c =>
    have hsame : ps.set i c.2 = ps := by
      obtain ⟨hlt, hget⟩ := List.getElem?_eq_some_iff.1 hi
      rw [← hget, List.set_getElem_self]
    rw [hsame]
    exact ⟨[], .nil _, by simp⟩
  | @cons c e d a ms hstep hrest ih =>
    obtain ⟨k, hk, hsem, hnext⟩ := hstep
    simp only [List.mem_cons, forall_eq_or_imp] at hG
    have hlt : i < ps.length := (List.getElem?_eq_some_iff.1 hi).1
    have hi' : (ps.set i e.2)[i]? = some e.2 := List.getElem?_set_self hlt
    obtain ⟨ms', hrun, hms⟩ := ih hG.2 hi'
    rw [List.set_set] at hrun
    refine ⟨⟨(c.1, ps), (i, a), (e.1, ps.set i e.2)⟩ :: ms', .cons ?_ hrun, ?_⟩
    · exact ⟨k, hi.trans (congrArg some hk), hsem, congrArg (ps.set i) hnext⟩
    · simp only [List.mem_cons, forall_eq_or_imp]
      exact ⟨⟨trivial, hG.1⟩, hms⟩

/-- The threads do their actions in this order, with the answers that are given; a thread that
cannot go on is passed over. -/
def play (does : ℕ → σ → (a : A) → Option (R a × σ)) : List ℕ → Threads σ R α → Threads σ R α
  | [], c => c
  | i :: order, c =>
    match c.2[i]? with
    | some (.act a k) =>
      match does i c.1 a with
      | some (r, t) => play does order (t, c.2.set i (k r))
      | none => play does order c
    | _ => play does order c

/-- The answers need to be right only where `I` holds, which they keep. -/
theorem run_play_keeping {I : σ → Prop} {G : ℕ → σ → (a : A) → R a → Prop}
    (does : ℕ → σ → (a : A) → Option (R a × σ))
    (hdoes : ∀ i s a r t, I s → does i s a = some (r, t) → sem i s a r t ∧ I t ∧ G i s a r)
    (order : List ℕ) (c : Threads σ R α) (hc : I c.1) :
    ∃ ms, Run (ThreadStep sem) c ms (play does order c) ∧
      ∀ m ∈ ms, G m.act.1 m.src.1 m.act.2.1 m.act.2.2 := by
  induction order generalizing c with
  | nil => exact ⟨[], .nil c, by simp⟩
  | cons i order ih =>
    rw [play]
    split
    · next a k hget =>
      split
      · next r t hact =>
        obtain ⟨hsem, ht, hguard⟩ := hdoes i c.1 a r t hc hact
        obtain ⟨ms, hrun, hms⟩ := ih (t, c.2.set i (k r)) ht
        refine ⟨⟨c, (i, ⟨a, r⟩), (t, c.2.set i (k r))⟩ :: ms, .cons ⟨k, hget, hsem, rfl⟩ hrun, ?_⟩
        simp only [List.mem_cons, forall_eq_or_imp]
        exact ⟨hguard, hms⟩
      · exact ih c hc
    · exact ih c hc

theorem run_play_guarded {G : ℕ → σ → (a : A) → R a → Prop}
    (does : ℕ → σ → (a : A) → Option (R a × σ))
    (hdoes : ∀ i s a r t, does i s a = some (r, t) → sem i s a r t ∧ G i s a r) (order : List ℕ)
    (c : Threads σ R α) : ∃ ms, Run (ThreadStep sem) c ms (play does order c) ∧
      ∀ m ∈ ms, G m.act.1 m.src.1 m.act.2.1 m.act.2.2 :=
  run_play_keeping (I := fun _ => True) does
    (fun i s a r t _ h => ⟨(hdoes i s a r t h).1, trivial, (hdoes i s a r t h).2⟩) order c trivial

theorem run_play (does : ℕ → σ → (a : A) → Option (R a × σ))
    (hdoes : ∀ i s a r t, does i s a = some (r, t) → sem i s a r t) (order : List ℕ)
    (c : Threads σ R α) : ∃ ms, Run (ThreadStep sem) c ms (play does order c) := by
  obtain ⟨ms, hrun, -⟩ := run_play_guarded (G := fun _ _ _ _ => True) does
    (fun i s a r t h => ⟨hdoes i s a r t h, trivial⟩) order c
  exact ⟨ms, hrun⟩

end Threads

end Rcom.Lib.Program
