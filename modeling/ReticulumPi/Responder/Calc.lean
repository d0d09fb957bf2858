import Mathlib.Algebra.Order.BigOperators.Group.List
import Mathlib.Tactic.Linarith
import ReticulumPi.Lib.BitLength

/-!
# The calculator

`_safe_eval` of the Meshtastic responder evaluates the syntax tree of an expression that
anybody in the mesh may send. Integers are exact and grow; floating-point and complex
numbers are of bounded size, and are a parameter, with what the operations make of them.
The evaluation keeps account of the integers that it produces.

An exponent may be 1000 at most. But a power may be the base of another, and then the
exponents multiply. What can be said is that no integer has more bits than the literals
have, and the tree has nodes, times the exponents of powers within one another
(`produced_le_growth`). That is the bound of one exponent exactly if they multiply to 1000
at most (`calc_bounded`).
-/

namespace ReticulumPi.Responder

open List

/-! ## Expressions -/

inductive UnaryOp
  | uSub | uAdd
deriving DecidableEq

inductive BinaryOp
  | add | sub | mult | div | floorDiv | mod | pow
deriving DecidableEq

/-- A number: an integer, or of the type `F` of those that are not. -/
inductive Number (F : Type)
  | int (n : ℤ)
  | inexact (x : F)

/-- A syntax tree. A truth value is an integer. -/
inductive Expr (F : Type)
  | constant (value : Number F)
  | unary (op : UnaryOp) (operand : Expr F)
  | binary (op : BinaryOp) (left right : Expr F)
  | call (fname : String) (args : List (Expr F))
  | name (id : String)
  /-- Any other node, with what is below it, which is not evaluated. -/
  | other

inductive Raised
  | valueError (message : String)
  | zeroDivision
  /-- Another exception, of an operation on numbers. -/
  | arithmetic
deriving DecidableEq

/-- What the operations do where not all is about integers. -/
structure Inexact (F : Type) where
  unary : UnaryOp → F → Except Raised F
  /-- The operations where an operand is not an integer, the division, and the power of an
      integer to a negative one. -/
  binary : BinaryOp → Number F → Number F → Except Raised F
  /-- `abs(x) > 1000` -/
  exceeds : F → Except Raised Bool
  /-- The functions of `math`, and `abs` of what is not one integer. -/
  func : String → List (Number F) → Except Raised F
  pi : F
  e : F

/-- How an evaluation ends, and the integers that it has produced. -/
abbrev Outcome (α : Type) := Except Raised α × List ℤ

section Eval

variable {F : Type} (inexact : Inexact F)

/-- The functions in `_SAFE_MATH_FUNCS`. -/
def callables : List String := ["sqrt", "abs", "sin", "cos", "tan", "log", "log10"]

/-- `_SAFE_MATH_OPS[type(node.op)]`, of one operand. -/
def applyUnary : UnaryOp → Number F → Except Raised (Number F)
  | .uSub, .int n => .ok (.int (-n))
  | .uAdd, .int n => .ok (.int n)
  | op, .inexact x => (inexact.unary op x).map .inexact

/-- `_SAFE_MATH_OPS[type(node.op)]`, of two operands. -/
def applyBinary : BinaryOp → Number F → Number F → Except Raised (Number F)
  | .add, .int m, .int n => .ok (.int (m + n))
  | .sub, .int m, .int n => .ok (.int (m - n))
  | .mult, .int m, .int n => .ok (.int (m * n))
  | .floorDiv, .int m, .int n => if n = 0 then .error .zeroDivision else .ok (.int (m.fdiv n))
  | .mod, .int m, .int n => if n = 0 then .error .zeroDivision else .ok (.int (m.fmod n))
  | .pow, .int m, .int n =>
    if 0 ≤ n then .ok (.int (m ^ n.toNat))
    else (inexact.binary .pow (.int m) (.int n)).map .inexact
  | op, l, r => (inexact.binary op l r).map .inexact

/-- `abs(right) > 1000` -/
def exceeds : Number F → Except Raised Bool
  | .int n => .ok (1000 < n.natAbs)
  | .inexact x => inexact.exceeds x

/-- The operation on two values, after the check of the exponent. -/
def evalBinary (op : BinaryOp) (l r : Number F) : Except Raised (Number F) := do
  if op = .pow then
    if ← exceeds inexact r then throw (.valueError "Exponent too large")
  applyBinary inexact op l r

/-- `_SAFE_MATH_FUNCS[fname](*args)` -/
def applyFunc (fname : String) (args : List (Number F)) : Except Raised (Number F) :=
  match args with
  | [.int n] =>
    if fname = "abs" then .ok (.int |n|) else (inexact.func fname [.int n]).map .inexact
  | args => (inexact.func fname args).map .inexact

/-- A value that was computed, after the integers produced before. -/
def Outcome.note (r : Except Raised (Number F)) (produced : List ℤ) : Outcome (Number F) :=
  match r with
  | .ok (.int n) => (r, produced ++ [n])
  | _ => (r, produced)

mutual

/-- `_safe_eval` -/
def safeEval : Expr F → Outcome (Number F)
  | .constant value => Outcome.note (.ok value) []
  | .unary op operand =>
    match safeEval operand with
    | (.ok v, produced) => Outcome.note (applyUnary inexact op v) produced
    | r => r
  | .binary op left right =>
    match safeEval left with
    | (.ok l, produced) =>
      match safeEval right with
      | (.ok r, produced') => Outcome.note (evalBinary inexact op l r) (produced ++ produced')
      | (.error e, produced') => (.error e, produced ++ produced')
    | r => r
  | .call fname args =>
    if fname ∈ callables then
      match safeEvalAll args with
      | (.ok values, produced) => Outcome.note (applyFunc inexact fname values) produced
      | (.error e, produced) => (.error e, produced)
    else (.error (.valueError ("Unknown function: " ++ fname)), [])
  | .name id =>
    if id = "pi" then (.ok (.inexact inexact.pi), [])
    else if id = "e" then (.ok (.inexact inexact.e), [])
    else (.error (.valueError "Unsupported expression"), [])
  | .other => (.error (.valueError "Unsupported expression"), [])

/-- `[_safe_eval(a) for a in node.args]` -/
def safeEvalAll : List (Expr F) → Outcome (List (Number F))
  | [] => (.ok [], [])
  | arg :: args =>
    match safeEval arg with
    | (.ok v, produced) =>
      match safeEvalAll args with
      | (.ok vs, produced') => (.ok (v :: vs), produced ++ produced')
      | (.error e, produced') => (.error e, produced ++ produced')
    | (.error e, produced) => (.error e, produced)

end

/-- The integers produced at any step of the evaluation. -/
def produced (e : Expr F) : List ℤ := (safeEval inexact e).2

end Eval

/-! ## Measures -/

section Measures

variable {F : Type}

/-- The bits of a number that stands in a tree. -/
def Number.bits : Number F → ℕ
  | .int n => bitLength n
  | .inexact _ => 0

mutual

/-- The bits of the integer literals. -/
def Expr.literalBits : Expr F → ℕ
  | .constant value => value.bits
  | .unary _ operand => operand.literalBits
  | .binary _ left right => left.literalBits + right.literalBits
  | .call _ args => literalBitsAll args
  | .name _ | .other => 0

def literalBitsAll : List (Expr F) → ℕ
  | [] => 0
  | arg :: args => arg.literalBits + literalBitsAll args

end

mutual

/-- The nodes, as `ast.walk` counts them: those of operators and of contexts too. -/
def Expr.nodes : Expr F → ℕ
  | .constant _ => 1
  | .unary _ operand => 2 + operand.nodes
  | .binary _ left right => 2 + left.nodes + right.nodes
  | .call _ args => 3 + nodesAll args
  | .name _ => 2
  | .other => 1

def nodesAll : List (Expr F) → ℕ
  | [] => 0
  | arg :: args => arg.nodes + nodesAll args

end

/-- What an exponent can multiply the length of the base by: itself, if it is a literal that
    is let through, and 1000 if it is anything else. -/
def Expr.factor : Expr F → ℕ
  | .constant (.int n) => if n.natAbs ≤ 1000 then max 1 n.natAbs else 1
  | _ => 1000

mutual

/-- The exponents of powers within the bases of one another, multiplied. -/
def Expr.growth : Expr F → ℕ
  | .constant _ | .name _ | .other => 1
  | .unary _ operand => operand.growth
  | .binary op left right =>
    max (left.growth * if op = .pow then right.factor else 1) right.growth
  | .call _ args => growthAll args

def growthAll : List (Expr F) → ℕ
  | [] => 1
  | arg :: args => max arg.growth (growthAll args)

end

end Measures

/-! ## One operation -/

section Operations

variable {F : Type} {inexact : Inexact F}

theorem map_inexact_ne {r : Except Raised F} {n : ℤ} :
    r.map Number.inexact ≠ .ok (.int n) := by
  cases r <;> simp [Except.map]

theorem applyUnary_int {op : UnaryOp} {v : Number F} {n : ℤ}
    (h : applyUnary inexact op v = .ok (.int n)) : ∃ m, v = .int m ∧ bitLength n ≤ bitLength m := by
  rcases v with m | x
  · refine ⟨m, rfl, ?_⟩
    cases op <;> cases h
    · exact (bitLength_neg m).le
    · exact le_rfl
  · cases op <;> exact absurd h map_inexact_ne

/-- An integer comes of integers, and has at most their bits together, and one more, unless it
    is a power. -/
theorem applyBinary_int {op : BinaryOp} {l r : Number F} {n : ℤ} (hop : op ≠ .pow)
    (h : applyBinary inexact op l r = .ok (.int n)) :
    ∃ m k, l = .int m ∧ r = .int k ∧ bitLength n ≤ bitLength m + bitLength k + 1 := by
  rcases l with m | x
  · rcases r with k | y
    · refine ⟨m, k, rfl, rfl, ?_⟩
      cases op with
      | add =>
        cases h
        have hadd := bitLength_add_le (le_max_left (bitLength m) (bitLength k)) (le_max_right _ _)
        omega
      | sub =>
        cases h
        have hsub := bitLength_sub_le (le_max_left (bitLength m) (bitLength k)) (le_max_right _ _)
        omega
      | mult =>
        cases h
        exact (bitLength_mul_le m k).trans (Nat.le_succ _)
      | div => exact absurd h map_inexact_ne
      | floorDiv =>
        rw [applyBinary] at h
        split_ifs at h
        cases h
        have hdiv := bitLength_fdiv_le m k
        omega
      | mod =>
        rw [applyBinary] at h
        split_ifs at h with hk
        cases h
        have hmod := bitLength_fmod_le (m := m) hk
        omega
      | pow => exact absurd rfl hop
    · cases op <;> exact absurd h map_inexact_ne
  · cases op <;> cases r <;> exact absurd h map_inexact_ne

/-- A power that is an integer is one of integers, with an exponent that was let through. -/
theorem evalBinary_pow {l r : Number F} {n : ℤ} (h : evalBinary inexact .pow l r = .ok (.int n)) :
    ∃ m k, l = .int m ∧ r = .int k ∧ k.natAbs ≤ 1000 ∧ n = m ^ k.natAbs := by
  have happly : (exceeds inexact r = .ok false) ∧ applyBinary inexact .pow l r = .ok (.int n) := by
    rw [evalBinary, if_pos rfl] at h
    rcases hexceeds : exceeds inexact r with e | large
    · rw [hexceeds] at h
      cases h
    · rw [hexceeds] at h
      cases large
      · exact ⟨rfl, h⟩
      · cases h
  obtain ⟨hexceeds, h⟩ := happly
  rcases l with m | x
  · rcases r with k | y
    · rw [applyBinary] at h
      split_ifs at h with hk
      · cases h
        have hle : ¬1000 < k.natAbs := of_decide_eq_false (Except.ok.inj hexceeds)
        exact ⟨m, k, rfl, rfl, not_lt.1 hle, by rw [Int.natAbs_of_nonneg hk |>.symm]; rfl⟩
      · exact absurd h map_inexact_ne
    · exact absurd h map_inexact_ne
  · cases r <;> exact absurd h map_inexact_ne

theorem evalBinary_of_ne {op : BinaryOp} {l r : Number F} (hop : op ≠ .pow) :
    evalBinary inexact op l r = applyBinary inexact op l r := by
  rw [evalBinary, if_neg hop]

theorem applyFunc_int {fname : String} {args : List (Number F)} {n : ℤ}
    (h : applyFunc inexact fname args = .ok (.int n)) :
    ∃ m, .int m ∈ args ∧ bitLength n ≤ bitLength m := by
  rw [applyFunc.eq_def] at h
  split at h
  · next m =>
    split_ifs at h
    · cases h
      exact ⟨m, mem_singleton_self _, (bitLength_abs m).le⟩
    · exact absurd h map_inexact_ne
  · exact absurd h map_inexact_ne

end Operations

/-! ## All integers -/

section Bound

variable {F : Type} {inexact : Inexact F}

/-- The integers that were produced, and the value if it is one, have at most `b` bits. -/
structure Bounded (b : ℕ) (o : Outcome (Number F)) : Prop where
  produced : ∀ n ∈ o.2, bitLength n ≤ b
  value : ∀ n, o.1 = .ok (.int n) → bitLength n ≤ b

/-- The same of the values of arguments. -/
structure BoundedAll (b : ℕ) (o : Outcome (List (Number F))) : Prop where
  produced : ∀ n ∈ o.2, bitLength n ≤ b
  values : ∀ vs, o.1 = .ok vs → ∀ n, .int n ∈ vs → bitLength n ≤ b

theorem Bounded.note {b : ℕ} {r : Except Raised (Number F)} {produced : List ℤ}
    (hproduced : ∀ n ∈ produced, bitLength n ≤ b) (hr : ∀ n, r = .ok (.int n) → bitLength n ≤ b) :
    Bounded b (Outcome.note r produced) := by
  rcases r with e | n | x
  · exact ⟨hproduced, hr⟩
  · refine ⟨fun m hm => ?_, hr⟩
    rcases mem_append.1 hm with hm | hm
    · exact hproduced m hm
    · rw [mem_singleton.1 hm]
      exact hr n rfl
  · exact ⟨hproduced, hr⟩

/-- An evaluation that raised has no value. -/
theorem bounded_error {b : ℕ} {e : Raised} {produced : List ℤ}
    (hproduced : ∀ n ∈ produced, bitLength n ≤ b) :
    Bounded b ((.error e, produced) : Outcome (Number F)) :=
  ⟨hproduced, fun _ h => by cases h⟩

mutual

theorem growth_pos (e : Expr F) : 1 ≤ e.growth := by
  cases e with
  | constant | name | other => rw [Expr.growth]
  | unary op operand =>
    rw [Expr.growth]
    exact growth_pos operand
  | binary op left right =>
    rw [Expr.growth]
    exact (growth_pos right).trans (le_max_right _ _)
  | call fname args =>
    rw [Expr.growth]
    exact growthAll_pos args

theorem growthAll_pos (args : List (Expr F)) : 1 ≤ growthAll args := by
  cases args with
  | nil => rw [growthAll]
  | cons arg args =>
    rw [growthAll]
    exact (growth_pos arg).trans (le_max_left _ _)

end

theorem factor_pos (e : Expr F) : 1 ≤ e.factor := by
  rw [Expr.factor.eq_def]
  split
  · split_ifs
    · exact le_max_left _ _
    · exact le_rfl
  · exact Nat.one_le_ofNat

/-- The value of an exponent that is let through is at most its factor. -/
theorem le_factor {e : Expr F} {k : ℤ} (h : (safeEval inexact e).1 = .ok (.int k))
    (hk : k.natAbs ≤ 1000) : k.natAbs ≤ e.factor := by
  rw [Expr.factor.eq_def]
  split
  · next n =>
    rw [safeEval] at h
    cases h
    rw [if_pos hk]
    exact le_max_right _ _
  · exact hk

/-- One power: the bits of the base, as many times as its exponent says. -/
theorem pow_bits_le {l r : Number F} {right : Expr F} {b b' : ℕ} {n : ℤ}
    (hl : ∀ m, l = .int m → bitLength m ≤ b) (hr : (safeEval inexact right).1 = .ok r)
    (h : evalBinary inexact .pow l r = .ok (.int n)) (hone : 1 ≤ b')
    (hle : right.factor * b ≤ b') : bitLength n ≤ b' := by
  obtain ⟨m, k, rfl, rfl, hk, rfl⟩ := evalBinary_pow h
  refine (bitLength_pow_le m k.natAbs).trans (max_le hone (le_trans ?_ hle))
  exact Nat.mul_le_mul (le_factor hr hk) (hl m rfl)

/-- The budget of a node of two operands: what each of them takes, what a power makes of the
    first, and what any other operation makes of both. -/
theorem binary_budget (gr wl wr : ℕ) {gl f : ℕ} (hl : 1 ≤ gl) (hf : 1 ≤ f) :
    gl * wl ≤ max (gl * f) gr * (wl + wr + 2) ∧ gr * wr ≤ max (gl * f) gr * (wl + wr + 2) ∧
      f * (gl * wl) ≤ max (gl * f) gr * (wl + wr + 2) ∧
      gl * wl + gr * wr + 1 ≤ max (gl * f) gr * (wl + wr + 2) := by
  obtain ⟨g, hg⟩ : ∃ g, g = max (gl * f) gr := ⟨_, rfl⟩
  have hglf : gl * f ≤ g := hg ▸ le_max_left _ _
  have hgr : gr ≤ g := hg ▸ le_max_right _ _
  have hgl : gl ≤ g := (Nat.le_mul_of_pos_right gl hf).trans hglf
  have hone : 1 ≤ g := hl.trans hgl
  rw [← hg]
  have h1 : gl * wl ≤ g * wl := Nat.mul_le_mul_right wl hgl
  have h2 : gr * wr ≤ g * wr := Nat.mul_le_mul_right wr hgr
  have h3 : f * (gl * wl) ≤ g * wl := by
    rw [← mul_assoc, mul_comm f gl]
    exact Nat.mul_le_mul_right wl hglf
  have hsum : g * (wl + wr + 2) = g * wl + g * wr + g * 2 := by ring
  refine ⟨?_, ?_, ?_, ?_⟩ <;> omega

mutual

/-- No integer has more bits than the literals have and the tree has nodes, times the
    exponents of powers within one another. -/
theorem bounded (e : Expr F) :
    Bounded (e.growth * (e.literalBits + e.nodes)) (safeEval inexact e) := by
  cases e with
  | constant value =>
    rw [safeEval, Expr.growth, Expr.literalBits, Expr.nodes, one_mul]
    refine .note (fun n hn => absurd hn not_mem_nil) fun n hn => ?_
    cases hn
    exact Nat.le_succ _
  | unary op operand =>
    have ih := bounded operand
    have hle : operand.growth * (operand.literalBits + operand.nodes) ≤
        operand.growth * (operand.literalBits + (2 + operand.nodes)) :=
      Nat.mul_le_mul_left _ (by omega)
    rw [safeEval, Expr.growth, Expr.literalBits, Expr.nodes]
    rcases hoperand : safeEval inexact operand with ⟨r, produced⟩
    rw [hoperand] at ih
    have hproduced := fun n hn => (ih.produced n hn).trans hle
    rcases r with e | v
    · exact bounded_error hproduced
    · refine .note hproduced fun n hn => ?_
      obtain ⟨m, rfl, hbits⟩ := applyUnary_int hn
      exact hbits.trans ((ih.value m rfl).trans hle)
  | binary op left right =>
    have ihl := bounded left
    have ihr := bounded right
    have hf : 1 ≤ if op = .pow then right.factor else 1 := by
      split_ifs
      · exact factor_pos right
      · exact le_rfl
    obtain ⟨hl, hr, hpow, hadd⟩ := binary_budget right.growth (left.literalBits + left.nodes)
      (right.literalBits + right.nodes) (growth_pos left) hf
    have hw : left.literalBits + right.literalBits + (2 + left.nodes + right.nodes) =
        left.literalBits + left.nodes + (right.literalBits + right.nodes) + 2 := by omega
    rw [safeEval, Expr.growth, Expr.literalBits, Expr.nodes, hw]
    rcases hleft : safeEval inexact left with ⟨l, producedl⟩
    rw [hleft] at ihl
    have hproducedl := fun n hn => (ihl.produced n hn).trans hl
    rcases l with e | l
    · exact bounded_error hproducedl
    rcases hright : safeEval inexact right with ⟨r, producedr⟩
    rw [hright] at ihr
    have hproduced : ∀ n ∈ producedl ++ producedr, bitLength n ≤ _ := fun n hn =>
      (mem_append.1 hn).elim (hproducedl n) fun hn => (ihr.produced n hn).trans hr
    rcases r with e | r
    · exact bounded_error hproduced
    refine .note hproduced fun n hn => ?_
    by_cases hop : op = .pow
    · -- A power multiplies the bits of its base by the exponent.
      subst hop
      rw [if_pos rfl] at hpow
      refine pow_bits_le (fun m hm => ihl.value m (by rw [hm])) (by rw [hright]) hn ?_ hpow
      exact Nat.mul_pos ((growth_pos right).trans (le_max_right _ _)) (by omega)
    · rw [evalBinary_of_ne hop] at hn
      obtain ⟨m, k, rfl, rfl, hbits⟩ := applyBinary_int hop hn
      have hm := ihl.value m rfl
      have hk := ihr.value k rfl
      exact hbits.trans (le_trans (by omega) hadd)
  | call fname args =>
    have ih := boundedAll args
    have hle : growthAll args * (literalBitsAll args + nodesAll args) ≤
        growthAll args * (literalBitsAll args + (3 + nodesAll args)) :=
      Nat.mul_le_mul_left _ (by omega)
    rw [safeEval, Expr.growth, Expr.literalBits, Expr.nodes]
    split_ifs
    · rcases hargs : safeEvalAll inexact args with ⟨r, produced⟩
      rw [hargs] at ih
      have hproduced := fun n hn => (ih.produced n hn).trans hle
      rcases r with e | values
      · exact bounded_error hproduced
      · refine .note hproduced fun n hn => ?_
        obtain ⟨m, hm, hbits⟩ := applyFunc_int hn
        exact hbits.trans ((ih.values values rfl m hm).trans hle)
    · exact bounded_error fun n hn => absurd hn not_mem_nil
  | name id =>
    rw [safeEval]
    split_ifs
    · exact ⟨fun n hn => absurd hn not_mem_nil, fun _ h => by cases h⟩
    · exact ⟨fun n hn => absurd hn not_mem_nil, fun _ h => by cases h⟩
    · exact bounded_error fun n hn => absurd hn not_mem_nil
  | other =>
    rw [safeEval]
    exact bounded_error fun n hn => absurd hn not_mem_nil

theorem boundedAll (args : List (Expr F)) :
    BoundedAll (growthAll args * (literalBitsAll args + nodesAll args))
      (safeEvalAll inexact args) := by
  cases args with
  | nil =>
    rw [safeEvalAll]
    refine ⟨fun n hn => absurd hn not_mem_nil, fun vs hvs n hn => ?_⟩
    cases hvs
    exact absurd hn not_mem_nil
  | cons arg args =>
    have ih := bounded arg
    have ihs := boundedAll args
    have hw : arg.literalBits + literalBitsAll args + (arg.nodes + nodesAll args) =
        arg.literalBits + arg.nodes + (literalBitsAll args + nodesAll args) := by omega
    have hle : arg.growth * (arg.literalBits + arg.nodes) ≤
        max arg.growth (growthAll args) *
          (arg.literalBits + arg.nodes + (literalBitsAll args + nodesAll args)) :=
      Nat.mul_le_mul (le_max_left _ _) (Nat.le_add_right _ _)
    have hles : growthAll args * (literalBitsAll args + nodesAll args) ≤
        max arg.growth (growthAll args) *
          (arg.literalBits + arg.nodes + (literalBitsAll args + nodesAll args)) :=
      Nat.mul_le_mul (le_max_right _ _) (Nat.le_add_left _ _)
    rw [safeEvalAll, growthAll, literalBitsAll, nodesAll, hw]
    rcases harg : safeEval inexact arg with ⟨r, produced⟩
    rw [harg] at ih
    have hproduced := fun n hn => (ih.produced n hn).trans hle
    rcases r with e | v
    · exact ⟨hproduced, fun _ h => by cases h⟩
    rcases hargs : safeEvalAll inexact args with ⟨rs, produceds⟩
    rw [hargs] at ihs
    have hproduceds : ∀ n ∈ produced ++ produceds, bitLength n ≤ _ := fun n hn =>
      (mem_append.1 hn).elim (hproduced n) fun hn => (ihs.produced n hn).trans hles
    rcases rs with e | vs
    · exact ⟨hproduceds, fun _ h => by cases h⟩
    refine ⟨hproduceds, fun vs' hvs n hn => ?_⟩
    cases hvs
    rcases mem_cons.1 hn with rfl | hn
    · exact (ih.value n rfl).trans hle
    · exact (ihs.values vs rfl n hn).trans hles

end

/-- Every integer takes at most 1000 bits for each bit of the literals and for each node. -/
def Within (inexact : Inexact F) (e : Expr F) : Prop :=
  ∀ n ∈ produced inexact e, bitLength n ≤ 1000 * (e.literalBits + e.nodes)

theorem within_of_growth {e : Expr F} (h : e.growth ≤ 1000) : Within inexact e := fun n hn =>
  ((bounded e).produced n hn).trans (Nat.mul_le_mul_right _ h)

/-! ## Towers of powers -/

/-- `(base ** k) ** k' …`, the last exponent first. -/
def tower (base : ℤ) : List ℕ → Expr F
  | [] => .constant (.int base)
  | k :: exponents => .binary .pow (tower base exponents) (.constant (.int k))

theorem safeEval_tower (inexact : Inexact F) (base : ℤ) (exponents : List ℕ)
    (h : ∀ k ∈ exponents, k ≤ 1000) :
    ∃ before, safeEval inexact (tower base exponents) =
      (.ok (.int (base ^ exponents.prod)), before ++ [base ^ exponents.prod]) := by
  induction exponents with
  | nil => exact ⟨[], by rw [tower, safeEval, prod_nil, pow_one]; rfl⟩
  | cons k exponents ih =>
    rw [forall_mem_cons] at h
    obtain ⟨before, hbefore⟩ := ih h.2
    have hvalue : evalBinary inexact .pow (.int (base ^ exponents.prod)) (.int k) =
        .ok (.int (base ^ (k :: exponents).prod)) := by
      have hexceeds : exceeds inexact (.int k) = .ok false :=
        congrArg Except.ok (decide_eq_false (by rw [Int.natAbs_natCast]; omega))
      have hpow : applyBinary inexact .pow (.int (base ^ exponents.prod)) (.int k) =
          .ok (.int ((base ^ exponents.prod) ^ k)) := by
        rw [applyBinary, if_pos (Int.natCast_nonneg k), Int.toNat_natCast]
      rw [evalBinary, if_pos rfl, hexceeds, prod_cons, mul_comm, pow_mul]
      exact hpow
    rw [tower, safeEval, hbefore, safeEval]
    dsimp only [Outcome.note]
    rw [hvalue]
    exact ⟨_, rfl⟩

theorem growth_tower (base : ℤ) {exponents : List ℕ} (h : ∀ k ∈ exponents, 1 ≤ k ∧ k ≤ 1000) :
    (tower base exponents : Expr F).growth = exponents.prod := by
  induction exponents with
  | nil => rw [tower, Expr.growth, prod_nil]
  | cons k exponents ih =>
    rw [forall_mem_cons] at h
    have hpos : 1 ≤ exponents.prod := one_le_prod_of_one_le fun k hk => (h.2 k hk).1
    rw [tower, Expr.growth, ih h.2, if_pos rfl, Expr.factor, Int.natAbs_natCast, if_pos h.1.2,
      max_eq_right h.1.1, Expr.growth, prod_cons, mul_comm, max_eq_left]
    exact Nat.mul_pos h.1.1 hpos

/-- What a tower takes, besides the bits of its base. -/
theorem size_tower (exponents : List ℕ) : ∃ c, ∀ base : ℤ,
    (tower base exponents : Expr F).literalBits + (tower base exponents : Expr F).nodes =
      bitLength base + c := by
  induction exponents with
  | nil => exact ⟨1, fun base => rfl⟩
  | cons k exponents ih =>
    obtain ⟨c, hc⟩ := ih
    refine ⟨c + bitLength k + 3, fun base => ?_⟩
    rw [tower, Expr.literalBits, Expr.nodes, Expr.literalBits, Expr.nodes]
    have := hc base
    have hk : (.int (k : ℤ) : Number F).bits = bitLength k := rfl
    omega

/-- A tower keeps the bound for every base exactly if its exponents multiply to 1000 at most. -/
theorem within_tower_iff {exponents : List ℕ} (h : ∀ k ∈ exponents, 1 ≤ k ∧ k ≤ 1000) :
    (∀ base, Within inexact (tower base exponents)) ↔ exponents.prod ≤ 1000 := by
  refine ⟨fun hall => ?_, fun hle base => within_of_growth (by rwa [growth_tower base h])⟩
  by_contra hlt
  obtain ⟨c, hc⟩ := size_tower (F := F) exponents
  -- A power of two that is long enough outgrows what the exponents add to the bound.
  obtain ⟨before, hbefore⟩ := safeEval_tower inexact (2 ^ (1000 * (c + 1))) exponents
    fun k hk => (h k hk).2
  have hmem : (2 ^ (1000 * (c + 1))) ^ exponents.prod ∈
      produced inexact (tower (2 ^ (1000 * (c + 1))) exponents) := by
    rw [produced, hbefore]
    exact mem_append_right _ (mem_singleton_self _)
  have hle := hall _ _ hmem
  rw [← pow_mul, bitLength_two_pow, hc, bitLength_two_pow] at hle
  have hgrow : 1000 * (c + 1) * 1001 ≤ 1000 * (c + 1) * exponents.prod :=
    Nat.mul_le_mul_left _ (by omega)
  omega

end Bound

/-- Without any other numbers. -/
def integersOnly : Inexact Unit where
  unary _ _ := .error .arithmetic
  binary _ _ _ := .error .arithmetic
  exceeds _ := .error .arithmetic
  func _ _ := .error .arithmetic
  pi := ()
  e := ()

end ReticulumPi.Responder
