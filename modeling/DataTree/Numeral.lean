/-!
# DataTree.Numeral

Decimal numerals of whole numbers: `renderNat` and `renderInt` write them
without superfluous zeros, `readNat?` and `readInt?` read them.  Reading is
more liberal than writing: leading zeros and a plus sign are accepted.
Digits are the ten characters of ASCII; nothing else counts as one.
-/

namespace DataTree.Numeral

/-! ## Digits -/

/-- The value of a digit. -/
def digit? (c : Char) : Option Nat :=
  if '0' ≤ c ∧ c ≤ '9' then some (c.toNat - '0'.toNat) else none

theorem digit?_lt {c : Char} {d : Nat} (h : digit? c = some d) : d < 10 := by
  unfold digit? at h
  split at h
  · next hc =>
    obtain rfl := Option.some.inj h
    have hle : c.toNat ≤ '9'.toNat := hc.2
    have hzero : '0'.toNat = 48 := rfl
    have hnine : '9'.toNat = 57 := rfl
    omega
  · cases h

/-- The digit with a value below ten. -/
def digitChar (d : Nat) : Char := Nat.digitChar d

theorem digit?_digitChar {d : Nat} (h : d < 10) : digit? (digitChar d) = some d := by
  have : ∀ d < 10, digit? (digitChar d) = some d := by decide
  exact this d h

/-- The lowest `width` digits of a number, zeros in front where it is shorter. -/
def fixedDigits : (width n : Nat) → List Char
  | 0, _ => []
  | width + 1, n => fixedDigits width (n / 10) ++ [digitChar (n % 10)]

@[simp] theorem length_fixedDigits (width n : Nat) : (fixedDigits width n).length = width := by
  induction width generalizing n with
  | zero => rfl
  | succ width ih => simp [fixedDigits, ih]

/-! ## Writing -/

/-- The numeral of a natural number. -/
def renderNat (n : Nat) : List Char := Nat.toDigits 10 n

/-- The numeral of an integer: a minus sign before the numeral of its magnitude. -/
def renderInt (n : Int) : List Char :=
  if n < 0 then '-' :: renderNat n.natAbs else renderNat n.natAbs

/-- The numeral of a natural number as a string. -/
def natText (n : Nat) : String := String.ofList (renderNat n)

/-- The numeral of an integer as a string. -/
def intText (n : Int) : String := String.ofList (renderInt n)

/-! ## Reading -/

/-- Read digits from the left onto the number read so far. -/
def readDigits? (n : Nat) : List Char → Option Nat
  | [] => some n
  | c :: cs => (digit? c).bind fun d => readDigits? (10 * n + d) cs

/-- A text of one or more digits. -/
def readNat? : List Char → Option Nat
  | [] => none
  | cs => readDigits? 0 cs

/-- Digits, perhaps after one plus sign. -/
def readUnsigned? : List Char → Option Nat
  | '+' :: cs => readNat? cs
  | cs => readNat? cs

/-- Digits, perhaps after one sign. -/
def readInt? : List Char → Option Int
  | '-' :: cs => (readNat? cs).map fun n => -(n : Int)
  | cs => (readUnsigned? cs).map Int.ofNat

theorem readDigits?_append (n : Nat) (as bs : List Char) :
    readDigits? n (as ++ bs) = (readDigits? n as).bind fun m => readDigits? m bs := by
  induction as generalizing n with
  | nil => rfl
  | cons c cs ih =>
    simp only [List.cons_append, readDigits?]
    cases digit? c with
    | none => rfl
    | some d => exact ih _

/-- What is read as digits consists of digits. -/
theorem isSome_digit?_of_mem {n k : Nat} {c : Char} {cs : List Char} (h : readDigits? n cs = some k)
    (hc : c ∈ cs) : (digit? c).isSome = true := by
  induction cs generalizing n with
  | nil => cases hc
  | cons a cs ih =>
    obtain ⟨d, ha, h⟩ := Option.bind_eq_some_iff.1 h
    obtain rfl | hc := List.mem_cons.1 hc
    · simp [ha]
    · exact ih h hc

/-- Reading digits of fixed width shifts what was read before them. -/
theorem readDigits?_fixedDigits (m width n : Nat) :
    readDigits? m (fixedDigits width n) = some (m * Nat.pow 10 width + n % Nat.pow 10 width) := by
  induction width generalizing n with
  | zero => simp [fixedDigits, readDigits?, Nat.mod_one]
  | succ width ih =>
    have hd : n % 10 < 10 := Nat.mod_lt _ (by decide)
    have hpow : Nat.pow 10 (width + 1) = Nat.pow 10 width * 10 := rfl
    have hsplit : n % (Nat.pow 10 width * 10) = n % 10 + 10 * (n / 10 % Nat.pow 10 width) := by
      rw [Nat.mul_comm, Nat.mod_mul]
    simp only [fixedDigits, readDigits?_append, ih, Option.bind_some, readDigits?,
      digit?_digitChar hd, hpow, hsplit]
    congr 1
    rw [Nat.mul_add, ← Nat.mul_assoc m]
    omega

/-! ## Reading what was written -/

theorem renderNat_of_lt {n : Nat} (h : n < 10) : renderNat n = [digitChar n] :=
  Nat.toDigits_of_lt_base h

/-- The last digit is that of the remainder. -/
theorem renderNat_of_le {n : Nat} (h : 10 ≤ n) :
    renderNat n = renderNat (n / 10) ++ [digitChar (n % 10)] :=
  Nat.toDigits_of_base_le (by decide) h

theorem isDigit_of_mem_renderNat {n : Nat} {c : Char} (h : c ∈ renderNat n) : c.isDigit = true :=
  Nat.isDigit_of_mem_toDigits (by decide) (by decide) h

theorem isDigit_digitChar {d : Nat} (h : d < 10) : (digitChar d).isDigit = true :=
  isDigit_of_mem_renderNat (n := d) (by simp [renderNat_of_lt h])

theorem isDigit_of_mem_fixedDigits {width n : Nat} {c : Char} (h : c ∈ fixedDigits width n) :
    c.isDigit = true := by
  induction width generalizing n with
  | zero => cases h
  | succ width ih =>
    rw [fixedDigits, List.mem_append, List.mem_singleton] at h
    obtain h | rfl := h
    · exact ih h
    · exact isDigit_digitChar (Nat.mod_lt n (by decide))

theorem readDigits?_renderNat (n : Nat) : readDigits? 0 (renderNat n) = some n := by
  induction n using Nat.strongRecOn with
  | ind n ih =>
    by_cases h : n < 10
    · simp [renderNat_of_lt h, readDigits?, digit?_digitChar h]
    · have hle : 10 ≤ n := Nat.le_of_not_lt h
      have hd : n % 10 < 10 := Nat.mod_lt _ (by decide)
      rw [renderNat_of_le hle, readDigits?_append, ih (n / 10) (by omega)]
      simp only [Option.bind_some, readDigits?, digit?_digitChar hd]
      congr 1
      omega

theorem renderNat_ne_nil (n : Nat) : renderNat n ≠ [] := by
  by_cases h : n < 10
  · simp [renderNat_of_lt h]
  · simp [renderNat_of_le (Nat.le_of_not_lt h)]

/-- What is written is read back. -/
theorem readNat?_renderNat (n : Nat) : readNat? (renderNat n) = some n := by
  have hd := readDigits?_renderNat n
  cases h : renderNat n with
  | nil => exact absurd h (renderNat_ne_nil n)
  | cons c cs => rw [h] at hd; exact hd

/-- A sign is no digit, so a numeral without one starts with neither. -/
theorem digit?_head_renderNat {n : Nat} {c : Char} {cs : List Char} (h : renderNat n = c :: cs) :
    (digit? c).isSome = true := by
  have hd := readDigits?_renderNat n
  rw [h, readDigits?] at hd
  cases hc : digit? c with
  | none => simp [hc] at hd
  | some d => rfl

theorem readUnsigned?_renderNat (n : Nat) : readUnsigned? (renderNat n) = some n := by
  have hr := readNat?_renderNat n
  cases h : renderNat n with
  | nil => exact absurd h (renderNat_ne_nil n)
  | cons c cs =>
    have hc := digit?_head_renderNat h
    rw [h] at hr
    unfold readUnsigned?
    split
    · next heq =>
      obtain ⟨rfl, rfl⟩ := List.cons.inj heq
      exact absurd hc (by decide)
    · exact hr

/-- What is written is read back. -/
theorem readInt?_renderInt (n : Int) : readInt? (renderInt n) = some n := by
  unfold renderInt
  split
  · next hn =>
    rw [readInt?, readNat?_renderNat]
    have hneg : -((n.natAbs : Int)) = n := by omega
    exact congrArg some hneg
  · next hn =>
    have hr := readUnsigned?_renderNat n.natAbs
    cases h : renderNat n.natAbs with
    | nil => exact absurd h (renderNat_ne_nil _)
    | cons c cs =>
      have hc := digit?_head_renderNat h
      rw [h] at hr
      unfold readInt?
      split
      · next heq =>
        obtain ⟨rfl, rfl⟩ := List.cons.inj heq
        exact absurd hc (by decide)
      · rw [hr]
        exact congrArg some (Int.natAbs_of_nonneg (Int.not_lt.1 hn))

/-! ## Words of 64 bits -/

/-- A number as a signed word, if it fits. -/
def int64? (n : Int) : Option Int64 :=
  if Int64.minValue.toInt ≤ n ∧ n ≤ Int64.maxValue.toInt then some (Int64.ofInt n) else none

/-- A number as an unsigned word, if it fits. -/
def uint64? (n : Int) : Option UInt64 :=
  if 0 ≤ n ∧ n.toNat < UInt64.size then some (UInt64.ofNat n.toNat) else none

theorem toInt_of_int64? {n : Int} {w : Int64} (h : int64? n = some w) : w.toInt = n := by
  unfold int64? at h
  split at h
  · next hn =>
    obtain rfl := Option.some.inj h
    rw [Int64.toInt_minValue, Int64.toInt_maxValue] at hn
    exact Int64.toInt_ofInt_of_le hn.1 (by omega)
  · exact absurd h (by simp)

theorem int64?_toInt (w : Int64) : int64? w.toInt = some w := by
  have h1 := Int64.minValue_le_toInt w
  have h2 := Int64.toInt_le w
  unfold int64?
  rw [if_pos ⟨h1, h2⟩, Int64.ofInt_toInt]

theorem uint64?_toNat (w : UInt64) : uint64? w.toNat = some w := by
  unfold uint64?
  rw [Int.toNat_natCast, if_pos ⟨Int.natCast_nonneg _, UInt64.toNat_lt_size w⟩,
    UInt64.ofNat_toNat]

end DataTree.Numeral
