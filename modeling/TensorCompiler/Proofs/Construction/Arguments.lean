import Mathlib.Data.List.Induction
import Mathlib.Data.Nat.Digits.Defs
import TensorCompiler.Proofs.Construction.Additions
import TensorCompiler.Proofs.Evaluation.Tensors

namespace TensorCompiler

/-!
# The arguments of a line

After the opcode, a line of a script has the names of the operands and then the parameters
of the operator.  This module says what these words stand for, without the reader: which
number a numeral spells, which numbers a word lists, which type two words give, and which
bytes a constant holds.  Words beyond the parameters are passed over.

The reader takes one word after the other.  For each of its parts there is one lemma that
says which words it has taken if it succeeds, and what they stand for.
-/

namespace Script

/-! ## Numbers and types -/

/-- A word spells a number in decimal digits, with a plus sign in front or not. -/
def Numeral (word : List Char) (n : Nat) : Prop :=
  ∃ digits : List Char, (word = digits ∨ word = '+' :: digits) ∧ digits ≠ [] ∧
    (∀ digit ∈ digits, digit.isDigit = true) ∧
    n = Nat.ofDigits 10 (digits.map fun digit => digit.toNat - '0'.toNat).reverse ∧
    n ≤ Word.largest

/-- A word lists numbers, with commas in between.  The word for a scalar lists none. -/
def Lists (word : String) (numbers : List Nat) : Prop :=
  if word = "scalar" then numbers = []
  else List.Forall₂ Numeral (word.toList.splitOn ',') numbers

/-- A word spells a binary32 number. -/
def Decimal (word : String) (number : Binary32) : Prop :=
  Binary32.read? word.toList = some number

/-- Two words give a type, by the name of its elements and by its dimensions. -/
structure GivesType (dtype dims : String) (type : TensorType) : Prop where
  dtype : type.dtype.name = dtype
  shape : Lists dims type.shape
  rank : type.rank ≤ maxRank

/-- Two words give the parameters of a quantization.  The zero point may be written as any
number, of which the integer part is taken. -/
structure GivesQuantization (scale zeroPoint : String) (quantization : Quantization) : Prop where
  scale : Decimal scale quantization.scale
  zeroPoint : ∃ number, Decimal zeroPoint number ∧
    quantization.zeroPoint = number.truncate (-0x80000000) 0x7fffffff

/-- The first of some words gives a pair of numbers.  If there is none, they are the usual
ones. -/
def GivesPair (usual : Nat × Nat) : List String → Nat × Nat → Prop
  | [], pair => pair = usual
  | word :: _, pair => Lists word [pair.1, pair.2]

/-! ## Constants -/

/-- The number that a constant holds throughout: zero unless the first of some words says
otherwise. -/
def GivesFill : List String → Binary32 → Prop
  | [], number => number = .zero
  | word :: _, number => Decimal word number

/-- The least and the greatest number of an integer type. -/
def bounds? : DataType → Option (Int × Int)
  | .i32 => some (-0x80000000, 0x7fffffff)
  | .i8 => some (-128, 127)
  | .u8 => some (0, 255)
  | .f32 | .f16 => none

/-- The lowest bytes of an integer in two's complement, least significant first. -/
def twosComplement (width : Nat) (n : Int) : List UInt8 :=
  (List.range width).map fun place => UInt8.ofInt (n / 256 ^ place)

/-- The bytes of an element that holds a number.  Integer types hold its integer part, brought
within their bounds.  In half precision only zero can be written. -/
inductive Element : DataType → Binary32 → List UInt8 → Prop
  | single (number : Binary32) : Element .f32 number number.toBytes
  | half {number : Binary32} (zero : number.agrees .zero = true) : Element .f16 number [0, 0]
  | integer {dtype : DataType} {low high : Int} (number : Binary32)
      (bounds : bounds? dtype = some (low, high)) :
      Element dtype number (twosComplement dtype.size (number.truncate low high))

/-- Data that hold one number in every element of a type. -/
def Fills (type : TensorType) (number : Binary32) (data : List UInt8) : Prop :=
  ∃ element, Element type.dtype number element ∧
    data = (List.replicate type.shape.prod element).flatten

/-! ## Parameters -/

/-- The words after the names of the operands give an operator its parameters, and an input or
a constant its type. -/
inductive Parameters : List String → Operator → List TensorType → Prop
  | input {dtype dims : String} {rest : List String} {type : TensorType}
      (typed : GivesType dtype dims type) : Parameters (dtype :: dims :: rest) .input [type]
  | output {words : List String} {results : List TensorType} : Parameters words .output results
  | constant {dtype dims : String} {rest : List String} {type : TensorType} {number : Binary32}
      {data : List UInt8} (typed : GivesType dtype dims type) (fill : GivesFill rest number)
      (filled : Fills type number data) :
      Parameters (dtype :: dims :: rest) (.constant data) [type]
  | transpose {word : String} {rest : List String} {axes : List Nat} {results : List TensorType}
      (listed : Lists word axes) : Parameters (word :: rest) (.transpose axes) results
  | reshape {word : String} {rest : List String} {dims : List Nat} {results : List TensorType}
      (listed : Lists word dims) : Parameters (word :: rest) (.reshape dims) results
  | clamp {least greatest : String} {rest : List String} {range : ClampRange}
      {results : List TensorType} (min : Decimal least range.min)
      (max : Decimal greatest range.max) :
      Parameters (least :: greatest :: rest) (.clamp range) results
  | conv2d {words : List String} {strides paddings : Nat × Nat} {results : List TensorType}
      (moves : GivesPair (1, 1) words strides) (pads : GivesPair (0, 0) (words.drop 1) paddings) :
      Parameters words
        (.conv2d ⟨strides.1, strides.2, paddings.1, paddings.2, .unbounded⟩) results
  | matMul {words : List String} {results : List TensorType} :
      Parameters words (.matMul .unbounded) results
  | quantize {scale zeroPoint : String} {rest : List String} {quantization : Quantization}
      {dtype : DataType} {results : List TensorType}
      (quantized : GivesQuantization scale zeroPoint quantization) :
      Parameters (scale :: zeroPoint :: dtype.name :: rest) (.quantize quantization dtype) results
  | dequantize {scale zeroPoint : String} {rest : List String} {quantization : Quantization}
      {results : List TensorType} (quantized : GivesQuantization scale zeroPoint quantization) :
      Parameters (scale :: zeroPoint :: rest) (.dequantize quantization) results
  | unary {words : List String} {function : UnaryFunction} {results : List TensorType} :
      Parameters words (.unary function) results
  | binary {words : List String} {function : BinaryFunction} {results : List TensorType} :
      Parameters words (.binary function) results

/-- A type that is given has a bounded rank. -/
theorem Parameters.rank_le {words : List String} {op : Operator} {type : TensorType}
    (parameters : Parameters words op [type]) (source : op.inputCount = 0) :
    type.rank ≤ maxRank := by
  cases parameters with
  | input typed | constant typed => exact typed.rank
  | _ => cases source

end Script

/-- The word that asks for an operator in a script. -/
def Operator.keyword : Operator → String
  | .constant _ => "const"
  | .unary function => function.name
  | .binary function => function.name
  | .matMul _ => "matmul"
  | op => op.opcode.name

/-! ## Numerals -/

namespace Text

theorem splitWhere_eq_splitOnP {α : Type} (isSeparator : α → Bool) (xs : List α) :
    splitWhere isSeparator xs = xs.splitOnP isSeparator := by
  induction xs with
  | nil => rfl
  | cons x xs inductionHypothesis =>
      rw [List.splitOnP_cons_eq_if_modifyHead, ← inductionHypothesis]
      change (if isSeparator x then _ else _) = _
      split
      · rfl
      · split
        · next piece rest pieces =>
          change splitWhere isSeparator xs = _ at pieces
          rw [pieces]
          rfl
        · next pieces =>
          change splitWhere isSeparator xs = _ at pieces
          rw [inductionHypothesis] at pieces
          exact absurd pieces (List.splitOnP_ne_nil _ _)

theorem digitsValue_eq_ofDigits (digits : List Char) :
    digitsValue digits =
      Nat.ofDigits 10 (digits.map fun digit => digit.toNat - '0'.toNat).reverse := by
  induction digits using List.reverseRecOn with
  | nil => rfl
  | append_singleton digits digit inductionHypothesis =>
      rw [List.map_append, List.reverse_append, List.map_singleton, List.reverse_singleton,
        List.singleton_append, Nat.ofDigits_cons, ← inductionHypothesis, digitsValue,
        List.foldl_append, digitsValue]
      simp [Nat.add_comm]

end Text

namespace Script

theorem numeral_of_readNatural? {word : List Char} {n : Nat}
    (read : Text.readNatural? Word.largest word = some n) : Numeral word n := by
  have spelled {digits : List Char} (shape : word = digits ∨ word = '+' :: digits)
      (read : (if digits.isEmpty || !digits.all Char.isDigit ||
        decide (Word.largest < Text.digitsValue digits) then none
        else some (Text.digitsValue digits)) = some n) : Numeral word n := by
    split at read
    · cases read
    · next accepted =>
      simp only [Bool.or_eq_true, List.isEmpty_iff, Bool.not_eq_true', decide_eq_true_eq,
        not_or, Bool.not_eq_false, List.all_eq_true, Nat.not_lt] at accepted
      rcases Option.some.inj read with rfl
      exact ⟨digits, shape, accepted.1.1, accepted.1.2, Text.digitsValue_eq_ofDigits digits,
        accepted.2⟩
  unfold Text.readNatural? at read
  split at read
  · exact spelled (Or.inr rfl) read
  · exact spelled (Or.inl rfl) read

/-! ## Reading the arguments -/

section

variable {α β : Type} {words rest : List (List Char)}

theorem reader_bind_eq_ok {first : ArgumentReader α} {next : α → ArgumentReader β} {result : β} :
    (first >>= next) words = .ok (result, rest) ↔ ∃ value between,
      first words = .ok (value, between) ∧ next value between = .ok (result, rest) := by
  change (first words >>= fun read => next read.1 read.2) = _ ↔ _
  simp only [Checked.bind_eq_ok, Prod.exists]

theorem reader_pure_eq_ok {value result : α} :
    (pure value : ArgumentReader α) words = .ok (result, rest) ↔ value = result ∧ words = rest := by
  change Except.ok (value, words) = _ ↔ _
  simp

theorem reader_lift_eq_ok {run : Checked α} {result : α} :
    (liftM run : ArgumentReader α) words = .ok (result, rest) ↔
      run = .ok result ∧ words = rest := by
  change (run >>= fun value => pure (value, words)) = _ ↔ _
  simp only [Checked.bind_eq_ok, Checked.pure_eq_ok, Prod.mk.injEq]
  constructor
  · rintro ⟨_, done, rfl, rfl⟩
    exact ⟨done, rfl⟩
  · rintro ⟨done, rfl⟩
    exact ⟨result, done, rfl, rfl⟩

variable {context : LineContext}

theorem word_eq_ok {word : List Char} (done : context.word words = .ok (word, rest)) :
    words = word :: rest := by
  cases words with
  | nil => exact absurd done Checked.refuse_ne_ok
  | cons first later =>
      rcases Prod.mk.inj (Except.ok.inj done) with ⟨rfl, rfl⟩
      rfl

/-- A value is read off the next word, which has to be a known name. -/
theorem value_eq_ok {outlet : Outlet} (done : context.value words = .ok (outlet, rest)) :
    ∃ word, words = word :: rest ∧ context.names.lookup (String.ofList word) = some outlet := by
  simp only [LineContext.value, reader_bind_eq_ok, reader_lift_eq_ok] at done
  rcases done with ⟨word, between, read, resolved, rfl⟩
  refine ⟨word, word_eq_ok read, ?_⟩
  unfold LineContext.resolve at resolved
  split at resolved
  · next found => rw [found, Except.ok.inj resolved]
  · exact absurd resolved Checked.refuse_ne_ok

theorem lists_of_numbers {word : List Char} {numbers : List Nat}
    (done : context.numbers word = .ok numbers) : Lists (String.ofList word) numbers := by
  unfold LineContext.numbers at done
  split at done
  · next scalar =>
    rw [Lists, if_pos scalar]
    exact (Checked.pure_eq_ok.mp done).symm
  · next notScalar =>
    rw [Lists, if_neg notScalar, String.toList_ofList, List.splitOn, ← Text.splitWhere_eq_splitOnP]
    refine (Checked.mapM_eq_ok.mp done).imp ?_
    intro piece n read
    split at read
    · next found =>
      rcases Except.ok.inj read with rfl
      exact numeral_of_readNatural? found
    · exact absurd read Checked.refuse_ne_ok

theorem decimal_of_read {word : List Char} {number : Binary32}
    (done : context.decimal word = .ok number) : Decimal (String.ofList word) number := by
  rw [Decimal, String.toList_ofList]
  unfold LineContext.decimal at done
  split at done
  · next found => rw [found, Except.ok.inj done]
  · exact absurd done Checked.refuse_ne_ok

theorem name_of_elementType {word : List Char} {dtype : DataType}
    (done : context.elementType word = .ok dtype) : dtype.name = String.ofList word := by
  unfold LineContext.elementType at done
  split at done
  · next found =>
    rcases Except.ok.inj done with rfl
    unfold DataType.ofName? at found
    have spelled := List.find?_some found
    exact beq_iff_eq.mp spelled
  · exact absurd done Checked.refuse_ne_ok

theorem tensorType_eq_ok {type : TensorType}
    (done : context.tensorType words = .ok (type, rest)) :
    ∃ dtype dims, words = dtype :: dims :: rest ∧
      GivesType (String.ofList dtype) (String.ofList dims) type := by
  simp only [LineContext.tensorType, reader_bind_eq_ok, reader_lift_eq_ok] at done
  rcases done with ⟨first, _, readFirst, dtype, _, ⟨named, rfl⟩, second, _, readSecond, dims, _,
    ⟨listed, rfl⟩, stored⟩
  rcases word_eq_ok readFirst with rfl
  rcases word_eq_ok readSecond with rfl
  cases shaped : TensorType.ofDims? dtype dims with
  | none =>
      rw [shaped] at stored
      cases stored
  | some found =>
      rw [shaped] at stored
      rcases reader_pure_eq_ok.mp stored with ⟨rfl, rfl⟩
      have rank := TensorType.rank_of_ofDims? shaped
      rcases TensorType.eq_of_ofDims? shaped with rfl
      exact ⟨first, second, rfl, name_of_elementType named, lists_of_numbers listed, rank⟩

theorem quantization_eq_ok {quantization : Quantization}
    (done : context.quantization words = .ok (quantization, rest)) :
    ∃ scale zeroPoint, words = scale :: zeroPoint :: rest ∧
      GivesQuantization (String.ofList scale) (String.ofList zeroPoint) quantization := by
  simp only [LineContext.quantization, reader_bind_eq_ok, reader_lift_eq_ok,
    reader_pure_eq_ok] at done
  rcases done with ⟨first, _, readFirst, scale, _, ⟨scaled, rfl⟩, second, _, readSecond, number, _,
    ⟨numbered, rfl⟩, rfl, rfl⟩
  rcases word_eq_ok readFirst with rfl
  rcases word_eq_ok readSecond with rfl
  exact ⟨first, second, rfl, decimal_of_read scaled, number, decimal_of_read numbered, rfl⟩

/-- A pair takes one word, if there is one. -/
theorem pair?_eq_ok {fault : LineFault} {pair? : Option (Nat × Nat)} (usual : Nat × Nat)
    (done : context.pair? fault words = .ok (pair?, rest)) :
    GivesPair usual (words.map String.ofList) (pair?.getD usual) ∧ rest = words.drop 1 := by
  simp only [LineContext.pair?, reader_bind_eq_ok] at done
  rcases done with ⟨word?, between, next, done⟩
  cases words with
  | nil =>
      rcases Prod.mk.inj (Except.ok.inj next) with ⟨rfl, rfl⟩
      rcases reader_pure_eq_ok.mp done with ⟨rfl, rfl⟩
      exact ⟨rfl, rfl⟩
  | cons word later =>
      rcases Prod.mk.inj (Except.ok.inj next) with ⟨rfl, rfl⟩
      simp only [reader_bind_eq_ok, reader_lift_eq_ok] at done
      rcases done with ⟨numbers, _, ⟨listed, rfl⟩, done⟩
      split at done
      · rcases reader_pure_eq_ok.mp done with ⟨rfl, rfl⟩
        exact ⟨lists_of_numbers listed, rfl⟩
      · exact absurd (reader_lift_eq_ok.mp done).1 Checked.refuse_ne_ok

theorem convolution_eq_ok {convolution : Convolution}
    (done : context.convolution words = .ok (convolution, rest)) :
    ∃ strides paddings, GivesPair (1, 1) (words.map String.ofList) strides ∧
      GivesPair (0, 0) ((words.map String.ofList).drop 1) paddings ∧
      convolution = ⟨strides.1, strides.2, paddings.1, paddings.2, .unbounded⟩ := by
  simp only [LineContext.convolution, reader_bind_eq_ok, reader_pure_eq_ok] at done
  rcases done with ⟨strides?, _, readStrides, paddings?, _, readPaddings, rfl, _⟩
  rcases pair?_eq_ok (1, 1) readStrides with ⟨moves, rfl⟩
  rcases pair?_eq_ok (0, 0) readPaddings with ⟨pads, _⟩
  rw [List.map_drop] at pads
  exact ⟨_, _, moves, pads, rfl⟩

/-! ## Reading constants -/

theorem repeated_eq_ok {count : Nat} {bytes data : List UInt8}
    (done : repeated count bytes = .ok data) : data = (List.replicate count bytes).flatten := by
  unfold repeated at done
  split at done
  · exact (Checked.pure_eq_ok.mp done).symm
  · exact absurd done Checked.abort_ne_ok

theorem twosComplement_succ (width : Nat) (n : Int) :
    twosComplement (width + 1) n = UInt8.ofInt n :: twosComplement width (n / 256) := by
  have places : ∀ place, n / 256 ^ (place + 1) = n / 256 / 256 ^ place := by
    intro place
    rw [Int.pow_succ', ← Int.ediv_ediv_of_nonneg (by decide)]
  simp [twosComplement, List.range_succ_eq_map, places]

theorem ofNat_eq_ofInt {m : Nat} {n : Int} (same : (m : Int) % 256 = n % 256) :
    UInt8.ofNat m = UInt8.ofInt n := by
  apply UInt8.toNat_inj.mp
  simp only [UInt8.ofInt, UInt8.toNat_ofNat']
  omega

/-- The bytes of a number are those of every integer that it agrees with as far as they go. -/
theorem number_eq_twosComplement {width m : Nat} {n : Int}
    (same : (m : Int) % 256 ^ width = n % 256 ^ width) :
    Bytes.number width m = twosComplement width n := by
  induction width generalizing m n with
  | zero => rfl
  | succ width inductionHypothesis =>
      rw [Int.pow_succ'] at same
      rcases Int.dvd_of_emod_eq_zero (Int.emod_eq_emod_iff_emod_sub_eq_zero.mp same) with
        ⟨turns, apart⟩
      rw [Int.mul_assoc] at apart
      have lowest : (m : Int) % 256 = n % 256 := by omega
      have others : ((m / 256 : Nat) : Int) = n / 256 + 256 ^ width * turns := by omega
      have further : ((m / 256 : Nat) : Int) % 256 ^ width = n / 256 % 256 ^ width := by
        rw [others, Int.add_mul_emod_self_left]
      rw [twosComplement_succ, Bytes.number, ofNat_eq_ofInt lowest, inductionHypothesis further]

/-- The integer part does not leave the bounds that it is brought within. -/
theorem le_truncate {low high : Int} (number : Binary32) (zero : low ≤ 0) (ordered : low ≤ high) :
    low ≤ number.truncate low high := by
  unfold Binary32.truncate
  split
  · exact zero
  · split
    · split
      · exact le_refl low
      · exact ordered
    · exact le_max_left _ _

theorem fills_of_filled {type : TensorType} {number : Binary32} {data : List UInt8}
    (done : context.filled type number = .ok data) : Fills type number data := by
  simp only [LineContext.filled, Checked.bind_eq_ok] at done
  rcases done with ⟨count, counted, done⟩
  have product := TensorType.prod_of_elements counted
  have remainder (n m : Int) (positive : 0 < m) : ((n % m).toNat : Int) % m = n % m := by
    rw [Int.toNat_of_nonneg (Int.emod_nonneg n positive.ne'), Int.emod_emod]
  rw [Fills, product]
  cases dtype : type.dtype with
  | f32 =>
      simp only [dtype] at done
      exact ⟨_, .single number, repeated_eq_ok done⟩
  | i32 =>
      simp only [dtype] at done
      rw [number_eq_twosComplement (remainder _ 0x100000000 (by decide))] at done
      exact ⟨_, .integer number rfl, repeated_eq_ok done⟩
  | i8 =>
      simp only [dtype] at done
      rw [ofNat_eq_ofInt (remainder _ 256 (by decide))] at done
      refine ⟨_, .integer number rfl, ?_⟩
      rw [DataType.size, twosComplement_succ]
      exact repeated_eq_ok done
  | u8 =>
      simp only [dtype] at done
      have least : 0 ≤ number.truncate 0 255 := le_truncate number (le_refl 0) (by decide)
      have whole := Int.toNat_of_nonneg least
      rw [ofNat_eq_ofInt (congrArg (· % 256) whole)] at done
      refine ⟨_, .integer number rfl, ?_⟩
      rw [DataType.size, twosComplement_succ]
      exact repeated_eq_ok done
  | f16 =>
      simp only [dtype] at done
      split at done
      · next zero =>
        simp only [Checked.bind_eq_ok] at done
        rcases done with ⟨bytes, sized, done⟩
        simp only [TensorType.bytes, counted, Checked.bind_eq_ok, dtype, Word.mul_eq_ok] at sized
        rcases sized with ⟨_, same, rfl, _⟩
        rcases Except.ok.inj same with rfl
        refine ⟨_, .half zero, ?_⟩
        rw [repeated_eq_ok done, List.flatten_replicate_singleton]
        exact (List.flatten_replicate_replicate (m := 2)).symm
      · exact absurd done Checked.refuse_ne_ok

theorem constant_eq_ok {statement : Statement}
    (done : context.constant words = .ok (statement, rest)) :
    ∃ dtype dims later type number data, words = dtype :: dims :: later ∧
      GivesType (String.ofList dtype) (String.ofList dims) type ∧
      GivesFill (later.map String.ofList) number ∧ Fills type number data ∧
      statement = .constant type data := by
  simp only [LineContext.constant, reader_bind_eq_ok] at done
  rcases done with ⟨type, later, typed, word?, _, next, done⟩
  rcases tensorType_eq_ok typed with ⟨dtype, dims, rfl, gives⟩
  cases later with
  | nil =>
      rcases Prod.mk.inj (Except.ok.inj next) with ⟨rfl, rfl⟩
      simp only [reader_bind_eq_ok, reader_lift_eq_ok, reader_pure_eq_ok] at done
      rcases done with ⟨_, _, ⟨rfl, rfl⟩, data, _, ⟨filled, rfl⟩, rfl, _⟩
      exact ⟨dtype, dims, [], type, .zero, data, rfl, gives, rfl, fills_of_filled filled, rfl⟩
  | cons word others =>
      rcases Prod.mk.inj (Except.ok.inj next) with ⟨rfl, rfl⟩
      simp only [reader_bind_eq_ok, reader_lift_eq_ok, reader_pure_eq_ok] at done
      rcases done with ⟨number, _, ⟨read, rfl⟩, data, _, ⟨filled, rfl⟩, rfl, _⟩
      exact ⟨dtype, dims, word :: others, type, number, data, rfl, gives, decimal_of_read read,
        fills_of_filled filled, rfl⟩

/-! ## Reading statements -/

/-- Some words name some outlets, one after the other. -/
def Name (names : List (String × Outlet)) (words : List (List Char)) (outlets : List Outlet) :
    Prop :=
  List.Forall₂ (fun word outlet => names.lookup (String.ofList word) = some outlet)
    (words.take outlets.length) outlets

theorem name_of_unaryName {function : UnaryFunction} {opcode : String}
    (found : UnaryFunction.ofName? opcode = some function) : function.name = opcode := by
  unfold UnaryFunction.ofName? at found
  have spelled := List.find?_some found
  exact beq_iff_eq.mp spelled

theorem name_of_binaryName {function : BinaryFunction} {opcode : String}
    (found : BinaryFunction.ofName? opcode = some function) : function.name = opcode := by
  unfold BinaryFunction.ofName? at found
  have spelled := List.find?_some found
  exact beq_iff_eq.mp spelled

end

end Script

/-- The results of a statement are of the type that it declares, if it declares one. -/
def Statement.Declares : Statement → List TensorType → Prop
  | input type, results | constant type _, results => results = [type]
  | _, _ => True

namespace Script

/-- What the words of a line make of a statement: the opcode asks for its operator, the first
words name its operands, and those after them give its parameters. -/
structure Understood (context : LineContext) (opcode : String) (words : List (List Char))
    (statement : Statement) : Prop where
  keyword : statement.operator.keyword = opcode
  named : Name context.names words statement.operands
  parameters : ∀ results, statement.Declares results →
    Parameters ((words.map String.ofList).drop statement.operands.length) statement.operator results

variable {context : LineContext} {opcode : String} {words rest : List (List Char)}
  {statement : Statement}

theorem understood_of_elementwise
    (done : context.elementwise opcode words = .ok (statement, rest)) :
    Understood context opcode words statement := by
  cases unary : UnaryFunction.ofName? opcode with
  | some function =>
      simp only [LineContext.elementwise, unary, reader_bind_eq_ok, reader_pure_eq_ok] at done
      rcases done with ⟨_, _, value, rfl, _⟩
      rcases value_eq_ok value with ⟨word, rfl, found⟩
      exact ⟨name_of_unaryName unary, .cons found .nil, fun _ _ => .unary⟩
  | none =>
      cases binary : BinaryFunction.ofName? opcode with
      | some function =>
          simp only [LineContext.elementwise, unary, binary, reader_bind_eq_ok,
            reader_pure_eq_ok] at done
          rcases done with ⟨_, _, first, _, _, second, rfl, _⟩
          rcases value_eq_ok first with ⟨firstWord, rfl, firstFound⟩
          rcases value_eq_ok second with ⟨secondWord, rfl, secondFound⟩
          exact ⟨name_of_binaryName binary, .cons firstFound (.cons secondFound .nil),
            fun _ _ => .binary⟩
      | none =>
          simp only [LineContext.elementwise, unary, binary] at done
          cases done

/-- A statement is what the words of its line make of it. -/
theorem understood_of_statement (done : context.statement opcode words = .ok (statement, rest)) :
    Understood context opcode words statement := by
  unfold LineContext.statement at done
  split at done
  any_goals simp only [reader_bind_eq_ok, reader_lift_eq_ok, reader_pure_eq_ok] at done
  case h_1 =>
      rcases done with ⟨type, _, typed, rfl, _⟩
      rcases tensorType_eq_ok typed with ⟨dtype, dims, rfl, gives⟩
      refine ⟨rfl, .nil, ?_⟩
      rintro _ rfl
      exact .input gives
  case h_2 =>
      rcases done with ⟨_, _, value, rfl, _⟩
      rcases value_eq_ok value with ⟨word, rfl, found⟩
      exact ⟨rfl, .cons found .nil, fun _ _ => .output⟩
  case h_3 =>
      rcases constant_eq_ok done with
        ⟨dtype, dims, later, type, number, data, rfl, gives, fill, fills, rfl⟩
      refine ⟨rfl, .nil, ?_⟩
      rintro _ rfl
      exact .constant gives fill fills
  case h_4 =>
      rcases done with ⟨_, _, value, _, _, word, axes, _, ⟨listed, rfl⟩, rfl, _⟩
      rcases value_eq_ok value with ⟨name, rfl, found⟩
      rcases word_eq_ok word with rfl
      exact ⟨rfl, .cons found .nil, fun _ _ => .transpose (lists_of_numbers listed)⟩
  case h_5 =>
      rcases done with ⟨_, _, value, _, _, word, dims, _, ⟨listed, rfl⟩, rfl, _⟩
      rcases value_eq_ok value with ⟨name, rfl, found⟩
      rcases word_eq_ok word with rfl
      exact ⟨rfl, .cons found .nil, fun _ _ => .reshape (lists_of_numbers listed)⟩
  case h_6 =>
      rcases done with ⟨_, _, value, _, _, least, min, _, ⟨readMin, rfl⟩, _, _, greatest, max, _,
        ⟨readMax, rfl⟩, rfl, _⟩
      rcases value_eq_ok value with ⟨name, rfl, found⟩
      rcases word_eq_ok least with rfl
      rcases word_eq_ok greatest with rfl
      exact ⟨rfl, .cons found .nil,
        fun _ _ => .clamp (decimal_of_read readMin) (decimal_of_read readMax)⟩
  case h_7 =>
      rcases done with ⟨_, _, image, _, _, weights, _, _, bias, convolution, _, read, rfl, _⟩
      rcases value_eq_ok image with ⟨imageWord, rfl, imageFound⟩
      rcases value_eq_ok weights with ⟨weightsWord, rfl, weightsFound⟩
      rcases value_eq_ok bias with ⟨biasWord, rfl, biasFound⟩
      rcases convolution_eq_ok read with ⟨strides, paddings, moves, pads, rfl⟩
      exact ⟨rfl, .cons imageFound (.cons weightsFound (.cons biasFound .nil)),
        fun _ _ => .conv2d moves pads⟩
  case h_8 =>
      rcases done with ⟨_, _, first, _, _, second, rfl, _⟩
      rcases value_eq_ok first with ⟨firstWord, rfl, firstFound⟩
      rcases value_eq_ok second with ⟨secondWord, rfl, secondFound⟩
      exact ⟨rfl, .cons firstFound (.cons secondFound .nil), fun _ _ => .matMul⟩
  case h_9 =>
      rcases done with ⟨_, _, value, quantization, _, quantized, _, _, word, dtype, _,
        ⟨named, rfl⟩, rfl, _⟩
      rcases value_eq_ok value with ⟨name, rfl, found⟩
      rcases quantization_eq_ok quantized with ⟨scale, zeroPoint, rfl, gives⟩
      rcases word_eq_ok word with rfl
      refine ⟨rfl, .cons found .nil, fun _ _ => ?_⟩
      simp only [List.map_cons, ← name_of_elementType named]
      exact .quantize gives
  case h_10 =>
      rcases done with ⟨_, _, value, quantization, _, quantized, rfl, _⟩
      rcases value_eq_ok value with ⟨name, rfl, found⟩
      rcases quantization_eq_ok quantized with ⟨scale, zeroPoint, rfl, gives⟩
      exact ⟨rfl, .cons found .nil, fun _ _ => .dequantize gives⟩
  case h_11 => exact understood_of_elementwise done

/-! ## Types -/

open TensorCompiler.Graph

/-- What a statement declares is the type of the node that it adds. -/
theorem declares_of_build {g h : Graph} {name title : String} {value? : Option Outlet}
    {results : List TensorType} (intact : g.Intact)
    (done : statement.build name g = .ok value? h)
    (appended : g.Appended (connectedNode statement.operator title statement.operands results) h) :
    statement.Declares results := by
  have same {other : String} {types : List TensorType}
      (again : g.Appended (connectedNode statement.operator other statement.operands types) h) :
      results = types := by
    have signatures := Node.signature_of_unread (appended.unread_eq again)
    rw [← results_connectedNode statement.operator title statement.operands results, signatures,
      results_connectedNode]
  cases statement with
  | input type =>
      simp only [Statement.build, Stateful.map_eq_ok, input, Stateful.bind_eq_ok,
        Stateful.pure_eq_ok] at done
      rcases done with ⟨_, ⟨_, _, added, rfl, rfl⟩, _⟩
      rcases addNode_eq_ok.mp added with ⟨_, _, rfl⟩
      exact same (.push intact.toFaithful intact.acyclic)
  | constant type data =>
      simp only [Statement.build, Stateful.map_eq_ok, constant, Stateful.bind_eq_ok,
        Stateful.lift_eq_ok] at done
      rcases done with ⟨_, ⟨bytes, _, ⟨size, rfl⟩, done⟩, _⟩
      split at done
      · next fits =>
        rcases exists_applyOperator intact.toFaithful intact.acyclic .nil
          (.constant (size.trans (congrArg _ fits.symm))) with ⟨_, _, applied, again⟩
        rcases EStateM.Result.ok.inj (applied.symm.trans done) with ⟨_, rfl⟩
        exact same again
      · exact absurd done Stateful.refuse_ne_ok
  | _ => trivial

end Script
end TensorCompiler
