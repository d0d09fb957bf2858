import Mathlib.Order.Nat

/-!
# Tokens and the places that hold them

Tokens are issued in sequence, each lies at no more than one place, and a token
leaves circulation by being *spent*. A ledger records the place of every token;
it is *sound* when each issued token is either spent or lies at exactly one
place. Issuing a token at an empty place, moving one to an empty place and
spending one keep it sound.
-/

/-- A ledger over the places `π`: the token at each place, the number of tokens
    issued (the tokens are the numbers below it), and the spent ones. -/
structure Ledger (π : Type*) where
  /-- The token at a place. -/
  holds : π → Option ℕ
  /-- How many tokens were issued. -/
  issued : ℕ
  /-- The tokens out of circulation. -/
  spent : ℕ → Prop

namespace Ledger

variable {π : Type*} {L : Ledger π} {p q : π} {t : ℕ}

@[ext] theorem ext {L L' : Ledger π} (holds : ∀ p, L.holds p = L'.holds p)
    (issued : L.issued = L'.issued) (spent : ∀ t, L.spent t ↔ L'.spent t) : L = L' := by
  obtain ⟨f, n, P⟩ := L
  obtain ⟨f', n', P'⟩ := L'
  obtain rfl : f = f' := funext holds
  obtain rfl : P = P' := funext fun t => propext (spent t)
  obtain rfl : n = n' := issued
  rfl

/-- Every issued token is either spent or lies at exactly one place. -/
structure Sound (L : Ledger π) : Prop where
  placed : ∀ p t, L.holds p = some t → t < L.issued ∧ ¬ L.spent t
  once : ∀ p q t, L.holds p = some t → L.holds q = some t → p = q
  kept : ∀ t, t < L.issued → L.spent t ∨ ∃ p, L.holds p = some t
  spent_lt : ∀ t, L.spent t → t < L.issued

/-- The ledger of no tokens. -/
def none : Ledger π := ⟨fun _ => .none, 0, fun _ => False⟩

theorem sound_none : (none : Ledger π).Sound where
  placed _ _ h := by cases h
  once _ _ _ h := by cases h
  kept _ h := absurd h (Nat.not_lt_zero _)
  spent_lt _ h := h.elim

/-- A token that is not spent lies at exactly one place. -/
theorem Sound.existsUnique (h : L.Sound) (ht : t < L.issued) (hs : ¬ L.spent t) :
    ∃! p, L.holds p = some t := by
  obtain ⟨p, hp⟩ := (h.kept t ht).resolve_left hs
  exact ⟨p, hp, fun q hq => h.once q p t hq hp⟩

variable [DecidableEq π]

/-- A new token at `p`. -/
def issue (L : Ledger π) (p : π) : Ledger π where
  holds := Function.update L.holds p (some L.issued)
  issued := L.issued + 1
  spent := L.spent

/-- What lies at `p` goes to `q`. -/
def move (L : Ledger π) (p q : π) : Ledger π where
  holds := Function.update (Function.update L.holds p .none) q (L.holds p)
  issued := L.issued
  spent := L.spent

/-- What lies at `p` is spent. -/
def spend (L : Ledger π) (p : π) : Ledger π where
  holds := Function.update L.holds p .none
  issued := L.issued
  spent t := L.spent t ∨ L.holds p = some t

theorem Sound.issue (h : L.Sound) (hp : L.holds p = .none) : (L.issue p).Sound where
  placed q t hq := by
    simp only [Ledger.issue, Function.update_apply] at hq ⊢
    split_ifs at hq with hqp
    · cases hq
      exact ⟨Nat.lt_succ_self _, fun hs => lt_irrefl _ (h.spent_lt _ hs)⟩
    · exact ⟨Nat.lt_succ_of_lt (h.placed q t hq).1, (h.placed q t hq).2⟩
  once q r t hq hr := by
    simp only [Ledger.issue, Function.update_apply] at hq hr
    split_ifs at hq hr with hqp hrp hrp
    · rw [hqp, hrp]
    · cases hq
      exact absurd (h.placed r _ hr).1 (lt_irrefl _)
    · cases hr
      exact absurd (h.placed q _ hq).1 (lt_irrefl _)
    · exact h.once q r t hq hr
  kept t ht := by
    simp only [Ledger.issue, Function.update_apply] at ht ⊢
    rcases Nat.lt_succ_iff_lt_or_eq.1 ht with ht | rfl
    · refine (h.kept t ht).imp_right fun ⟨q, hq⟩ => ⟨q, ?_⟩
      have hqp : q ≠ p := by
        rintro rfl
        rw [hp] at hq
        cases hq
      rw [if_neg hqp, hq]
    · exact .inr ⟨p, if_pos rfl⟩
  spent_lt t ht := Nat.lt_succ_of_lt (h.spent_lt t ht)

theorem Sound.move (h : L.Sound) (hq : L.holds q = .none) : (L.move p q).Sound where
  placed r t hr := by
    simp only [Ledger.move, Function.update_apply] at hr
    split_ifs at hr
    · exact h.placed p t hr
    · exact h.placed r t hr
  once r r' t hr hr' := by
    simp only [Ledger.move, Function.update_apply] at hr hr'
    split_ifs at hr hr' with h₁ h₂ h₃ h₄ h₅ h₆
    · rw [h₁, h₂]
    · exact absurd (h.once p r' t hr hr').symm h₃
    · exact absurd (h.once r p t hr hr') h₄
    · exact h.once r r' t hr hr'
  kept t ht := by
    refine (h.kept t ht).imp_right fun ⟨r, hr⟩ => ?_
    simp only [Ledger.move, Function.update_apply]
    by_cases hrp : r = p
    · exact ⟨q, by rw [if_pos rfl, ← hrp, hr]⟩
    · have hrq : r ≠ q := by
        rintro rfl
        rw [hq] at hr
        cases hr
      exact ⟨r, by rw [if_neg hrq, if_neg hrp, hr]⟩
  spent_lt := h.spent_lt

theorem Sound.spend (h : L.Sound) : (L.spend p).Sound where
  placed r t hr := by
    simp only [Ledger.spend, Function.update_apply] at hr ⊢
    split_ifs at hr with hrp
    refine ⟨(h.placed r t hr).1, ?_⟩
    rintro (hs | hs)
    · exact (h.placed r t hr).2 hs
    · exact hrp (h.once r p t hr hs)
  once r r' t hr hr' := by
    simp only [Ledger.spend, Function.update_apply] at hr hr'
    split_ifs at hr hr'
    exact h.once r r' t hr hr'
  kept t ht := by
    simp only [Ledger.spend, Function.update_apply]
    rcases h.kept t ht with hs | ⟨r, hr⟩
    · exact .inl (.inl hs)
    · by_cases hrp : r = p
      · exact .inl (.inr (hrp ▸ hr))
      · exact .inr ⟨r, by rw [if_neg hrp, hr]⟩
  spent_lt t := by
    rintro (hs | hs)
    · exact h.spent_lt t hs
    · exact (h.placed p t hs).1

end Ledger
