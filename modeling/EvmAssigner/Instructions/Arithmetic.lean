import EvmAssigner.Host

namespace EvmAssigner

/-- Two operands, of which `x` is the upper one, give way to one result. -/
def binary (f : Word → Word → Word) (stack : Int) : Local Unit := do
  record_stack stack 1 false
  record_stack stack 0 false
  let x ← stack_get stack 0
  let y ← stack_get (stack - 1) 0
  stack_set (stack - 1) 0 (f x y)
  record_stack (stack - 1) 0 true

def unary (f : Word → Word) (stack : Int) : Local Unit := do
  record_stack stack 0 false
  let x ← stack_get stack 0
  stack_set stack 0 (f x)
  record_stack stack 0 true

/-- `stack.push(v)`, recorded. -/
def push_word (v : Word) (stack : Int) : Local Unit := do
  stack_set (stack + 1) 0 v
  record_stack (stack + 1) 0 true

def add : Int → Local Unit := binary fun x y => y + x
def mul : Int → Local Unit := binary fun x y => y * x
def sub : Int → Local Unit := binary fun x y => x - y
def div : Int → Local Unit := binary fun x v => if v ≠ 0 then x / v else 0
def sdiv : Int → Local Unit := binary fun x v => x.sdiv v
def mod : Int → Local Unit := binary fun x v => if v ≠ 0 then x % v else 0
def smod : Int → Local Unit := binary fun x v => x.smod v

def addmod (stack : Int) : Local Unit := do
  record_stack stack 2 false
  record_stack stack 1 false
  record_stack stack 0 false
  let x ← stack_get stack 0
  let y ← stack_get (stack - 1) 0
  let m ← stack_get (stack - 2) 0
  stack_set (stack - 2) 0 (x.addmod y m)
  record_stack (stack - 2) 0 true

/-- The operands are not popped here, so it is the first one that is recorded as the result. -/
def mulmod (stack : Int) : Local Unit := do
  record_stack stack 2 false
  record_stack stack 1 false
  record_stack stack 0 false
  let x ← stack_get stack 0
  let y ← stack_get stack 1
  let m ← stack_get stack 2
  stack_set stack 2 (x.mulmod y m)
  record_stack stack 0 true

def exp (stack gas_left : Int) : Local InstructionResult := do
  let s ← Action.get
  record_stack stack 1 false
  record_stack stack 0 false
  let base ← stack_get stack 0
  let exponent ← stack_get (stack - 1) 0
  let exponent_cost : Int := if s.rev ≥ .SPURIOUS_DRAGON then 50 else 10
  let gas_left := gas_left - exponent.count_significant_bytes * exponent_cost
  if gas_left < 0 then return ⟨.OUT_OF_GAS, gas_left⟩
  stack_set (stack - 1) 0 (base.exp exponent)
  record_stack (stack - 1) 0 true
  return ⟨.SUCCESS, gas_left⟩

/-- The limb that holds the sign byte is extended in a copy only, the limbs above it in place. -/
def sign_extend (ext x : Word) : Word :=
  if ext < 31 then
    let e := ext.to_uint64
    let sign_word_index := e / 8
    let sign_byte_index := e % 8
    let sign_word := x.limb sign_word_index
    let sign_byte := sign_word >>> (sign_byte_index * 8)
    let sext_byte := (sign_byte.setWidth 8).signExtend 64
    let sign_ex := sext_byte.sshiftRight 8
    ([3, 2, 1].filter (sign_word_index < ·)).foldl (fun x i => x.set_val sign_ex i) x
  else x

def signextend : Int → Local Unit := binary sign_extend

def lt : Int → Local Unit := binary fun x y => .of_bool (decide (x < y))
def gt : Int → Local Unit := binary fun x y => .of_bool (decide (y < x))
def slt : Int → Local Unit := binary fun x y => .of_bool (BitVec.slt x y)
def sgt : Int → Local Unit := binary fun x y => .of_bool (BitVec.slt y x)
def eq : Int → Local Unit := binary fun x y => .of_bool (decide (y = x))
def iszero : Int → Local Unit := unary fun x => .of_bool (decide (x = 0))
def and_ : Int → Local Unit := binary fun x y => y &&& x
def or_ : Int → Local Unit := binary fun x y => y ||| x
def xor_ : Int → Local Unit := binary fun x y => y ^^^ x
def not_ : Int → Local Unit := unary fun x => ~~~x

def byte_of (n x : Word) : Word :=
  let byte_mask : Nat := if n < 32 then 0xff else 0
  let index := 31 - n.to_uint64 % 32
  let word := x.to_uint64 (index / 8)
  BitVec.ofNat 256 ((word >>> (index % 8 * 8)) &&& byte_mask)

def byte : Int → Local Unit := binary byte_of
def shl : Int → Local Unit := binary fun x y => y.shl x.toNat
def shr : Int → Local Unit := binary fun x y => y.shr x.toNat

/-- The sign is looked for in an unsigned limb. -/
def sar_of (y x : Word) : Word :=
  let is_neg := decide (x.to_uint64 3 < 0)
  let sign_mask : Word := if is_neg then 1 else 0
  let mask_shift := if y < 256 then 256 - y.to_uint64 else 0
  x.shr y.toNat ||| sign_mask.shl mask_shift

def sar : Int → Local Unit := binary sar_of

end EvmAssigner
