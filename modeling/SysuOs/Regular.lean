import Mathlib.Computability.RegularExpressions

/-! Programs given by the sequences of actions they can perform, as regular expressions over the
actions: `*` is what follows, `+` the choice of a branch, `star` a loop. An action is a partial
function of a state. A triple says that from a state in `P` no word of the program gets stuck,
and that all of them end in `Q`; it is proved along the expression, with an invariant for a
loop. -/

namespace SysuOs.Regular

open RegularExpression

variable {α σ : Type*} {step : α → σ → Option σ}

def trace (step : α → σ → Option σ) (w : List α) (s : σ) : Option σ :=
  w.foldlM (fun s a => step a s) s

@[simp] theorem trace_nil (s : σ) : trace step [] s = some s := rfl

@[simp] theorem trace_cons (a : α) (w : List α) (s : σ) :
    trace step (a :: w) s = (step a s).bind (trace step w) := rfl

theorem trace_append (v w : List α) (s : σ) :
    trace step (v ++ w) s = (trace step v s).bind (trace step w) := by
  rw [trace, List.foldlM_append]
  rfl

/-- The word can be performed from `s`, and ends in `Q`. -/
def Leads (step : α → σ → Option σ) (w : List α) (Q : σ → Prop) (s : σ) : Prop :=
  ∃ t, trace step w s = some t ∧ Q t

theorem leads_nil {Q : σ → Prop} {s : σ} : Leads step [] Q s ↔ Q s := by
  constructor
  · rintro ⟨t, ht, hq⟩
    cases ht
    exact hq
  · intro h
    exact ⟨s, rfl, h⟩

theorem leads_cons {a : α} {w : List α} {Q : σ → Prop} {s : σ} :
    Leads step (a :: w) Q s ↔ ∃ t, step a s = some t ∧ Leads step w Q t := by
  unfold Leads
  rw [trace_cons]
  cases step a s <;> simp

def Triple (step : α → σ → Option σ) (P : σ → Prop) (r : RegularExpression α) (Q : σ → Prop) :
    Prop :=
  ∀ w ∈ r.matches', ∀ s, P s → Leads step w Q s

namespace Triple

variable {P Q R : σ → Prop} {r p q : RegularExpression α} {a : α}

theorem weaken {P' Q' : σ → Prop} (h : Triple step P r Q) (hP : ∀ s, P' s → P s)
    (hQ : ∀ s, Q s → Q' s) : Triple step P' r Q' := by
  intro w hw s hs
  obtain ⟨t, ht, hq⟩ := h w hw s (hP s hs)
  exact ⟨t, ht, hQ t hq⟩

/-- A program can be checked one starting state at a time. -/
theorem of_forall (h : ∀ s, P s → Triple step (· = s) r Q) : Triple step P r Q :=
  fun w hw s hs => h s hs w hw s rfl

theorem one : Triple step P 1 P := by
  intro w hw s hs
  rw [matches'_epsilon, Language.mem_one] at hw
  subst hw
  exact ⟨s, rfl, hs⟩

theorem char (h : ∀ s, P s → ∃ t, step a s = some t ∧ Q t) :
    Triple step P (RegularExpression.char a) Q := by
  intro w hw s hs
  rw [matches'_char] at hw
  have hw : w = [a] := hw
  subst hw
  obtain ⟨t, ht, hq⟩ := h s hs
  refine ⟨t, ?_, hq⟩
  rw [trace_cons, ht]
  rfl

theorem add (hp : Triple step P p Q) (hq : Triple step P q Q) : Triple step P (p + q) Q := by
  intro w hw
  rw [matches'_add, Language.mem_add] at hw
  cases hw with
  | inl hw => exact hp w hw
  | inr hw => exact hq w hw

theorem mul (hp : Triple step P p Q) (hq : Triple step Q q R) : Triple step P (p * q) R := by
  intro w hw s hs
  rw [matches'_mul, Language.mem_mul] at hw
  obtain ⟨v, hv, u, hu, rfl⟩ := hw
  obtain ⟨t, ht, hQ⟩ := hp v hv s hs
  obtain ⟨t', ht', hR⟩ := hq u hu t hQ
  refine ⟨t', ?_, hR⟩
  rw [trace_append, ht]
  exact ht'

/-- A loop keeps what its body keeps. -/
theorem star (h : Triple step P r P) : Triple step P r.star P := by
  intro w hw
  rw [matches'_star, Language.mem_kstar] at hw
  obtain ⟨l, rfl, hl⟩ := hw
  induction l with
  | nil =>
      intro s hs
      exact ⟨s, rfl, hs⟩
  | cons v l ih =>
      intro s hs
      obtain ⟨t, ht, hP⟩ := h v (hl v (List.mem_cons_self ..)) s hs
      obtain ⟨t', ht', hP'⟩ := ih (fun u hu => hl u (List.mem_cons_of_mem _ hu)) t hP
      refine ⟨t', ?_, hP'⟩
      rw [List.flatten_cons, trace_append, ht]
      exact ht'

/-- What is still to be done is done after the program. -/
theorem leads_append (h : Triple step P r Q) {w v : List α} (hw : w ∈ r.matches') {s : σ}
    (hs : P s) (hv : ∀ t, Q t → Leads step v R t) : Leads step (w ++ v) R s := by
  obtain ⟨t, ht, hq⟩ := h w hw s hs
  unfold Leads
  rw [trace_append, ht]
  exact hv t hq

end Triple

end SysuOs.Regular
