import ChampionRuntime.Lib.Outcome

/-!
# Loops that may raise

A turn of a loop raises, ends the loop with a result, or goes on in a new state. A run is
given a number of turns; what it raises is `none` when the turns do not suffice. A measure
that falls with every turn bounds the turns a loop takes, and an invariant of the turns
holds where it ends.
-/
namespace ChampionRuntime.Lib

variable {α β ε : Type}

/-- What a program raises, or `none` for a run that is cut off. -/
abbrev Cut (ε β : Type) := Except (Option ε) β

def raised : Except ε β → Cut ε β
  | .ok b => .ok b
  | .error e => .error (some e)

/-- A run of at most `n` turns. -/
def loop (turn : α → Except ε (β ⊕ α)) : ℕ → α → Cut ε β
  | 0, _ => .error none
  | n + 1, a =>
    match turn a with
    | .error e => .error (some e)
    | .ok (.inl b) => .ok b
    | .ok (.inr a') => loop turn n a'

abbrev Ends (x : Cut ε β) : Prop := RaisesOnly (· ≠ none) x

@[simp] theorem raised_eq_ok {x : Except ε β} {b : β} : raised x = .ok b ↔ x = .ok b := by
  cases x <;> simp [raised]

theorem ends_raised (x : Except ε β) : Ends (raised x) := by
  intro e he
  cases x with
  | ok b => cases he
  | error e' =>
    cases he
    exact Option.some_ne_none e'

theorem ends_require (condition : Bool) (e : ε) : Ends (require condition (some e)) :=
  RaisesOnly.require (P := (· ≠ none)) (Option.some_ne_none e)

section Loop

variable {turn : α → Except ε (β ⊕ α)} (Inv : α → Prop) (μ : α → ℕ) (Post : β → Prop)

theorem ends_loop (hturn : ∀ a a', Inv a → turn a = .ok (.inr a') → Inv a' ∧ μ a' < μ a) {a : α}
    (ha : Inv a) {n : ℕ} (hn : μ a < n) : Ends (loop turn n a) := by
  induction n generalizing a with
  | zero => omega
  | succ n ih =>
    unfold loop
    cases houtcome : turn a with
    | error e => exact RaisesOnly.error (Option.some_ne_none e)
    | ok next =>
      cases next with
      | inl b => exact RaisesOnly.ok b
      | inr a' =>
        obtain ⟨ha', hless⟩ := hturn a a' ha houtcome
        exact ih ha' (by omega)

theorem loop_spec (hturn : ∀ a a', Inv a → turn a = .ok (.inr a') → Inv a')
    (hlast : ∀ a b, Inv a → turn a = .ok (.inl b) → Post b) {a : α} (ha : Inv a) {n : ℕ} {b : β}
    (h : loop turn n a = .ok b) : Post b := by
  induction n generalizing a with
  | zero => cases h
  | succ n ih =>
    unfold loop at h
    cases houtcome : turn a with
    | error e =>
      rw [houtcome] at h
      cases h
    | ok next =>
      cases next with
      | inl b' =>
        rw [houtcome] at h
        cases h
        exact hlast a b ha houtcome
      | inr a' =>
        rw [houtcome] at h
        exact ih (hturn a a' ha houtcome) h

theorem loop_ok
    (hturn : ∀ a, Inv a → (∃ b, turn a = .ok (.inl b) ∧ Post b) ∨
      ∃ a', turn a = .ok (.inr a') ∧ Inv a' ∧ μ a' < μ a)
    {a : α} (ha : Inv a) {n : ℕ} (hn : μ a < n) : ∃ b, loop turn n a = .ok b ∧ Post b := by
  induction n generalizing a with
  | zero => omega
  | succ n ih =>
    unfold loop
    rcases hturn a ha with ⟨b, houtcome, hb⟩ | ⟨a', houtcome, ha', hless⟩
    · rw [houtcome]
      exact ⟨b, rfl, hb⟩
    · rw [houtcome]
      exact ih ha' (by omega)

end Loop

section Rounds

variable {round : β → α → Except ε β} {P : β → α → Prop} {Inv : β → Prop}

/-- Every round of a loop meets a condition on its item and the state before it. -/
def RoundsMeet (round : β → α → Except ε β) (P : β → α → Prop) : β → List α → Prop
  | _, [] => True
  | b, a :: items => P b a ∧ ∀ b', round b a = .ok b' → RoundsMeet round P b' items

theorem invariant_of_rounds
    (hround : ∀ b a b', Inv b → P b a → round b a = .ok b' → Inv b') {items : List α} {b b' : β}
    (hb : Inv b) (hmeet : RoundsMeet round P b items) (h : items.foldlM round b = .ok b') :
    Inv b' := by
  induction items generalizing b with
  | nil =>
    obtain rfl := Except.ok.inj h
    exact hb
  | cons a items ih =>
    obtain ⟨hfirst, hrest⟩ := hmeet
    rw [List.foldlM_cons, bind_eq_ok] at h
    obtain ⟨c, hc, h⟩ := h
    exact ih (hround b a c hb hfirst hc) (hrest c hc) h

end Rounds

end ChampionRuntime.Lib
