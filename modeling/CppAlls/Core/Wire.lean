import CppAlls.Core.Buffers
import CppAlls.Lib.Failing
import CppAlls.Lib.Objects

namespace CppAlls
set_option autoImplicit true

open LittleEndian Interaction Failing

inductive ByteOrder where
  | little
  | big
deriving DecidableEq, Repr

namespace ByteOrder

def objectBytes : ByteOrder → Nat → Nat → Bytes
  | .little, n, x => leBytes n x
  | .big, n, x => (leBytes n x).reverse

def ofObjectBytes : ByteOrder → Bytes → Nat
  | .little, bs => leNat bs
  | .big, bs => leNat bs.reverse

def nativeToLittle : ByteOrder → Nat → Nat → Nat
  | .little, _, x => x
  | .big, n, x => byteSwap n x

def littleToNative : ByteOrder → Nat → Nat → Nat
  | .little, _, x => x
  | .big, n, x => byteSwap n x

@[simp] theorem objectBytes_nativeToLittle (o : ByteOrder) (n x : Nat) :
    o.objectBytes n (o.nativeToLittle n x) = leBytes n x := by
  cases o with
  | little => rfl
  | big => rw [objectBytes, nativeToLittle, leBytes_byteSwap, List.reverse_reverse]

theorem littleToNative_ofObjectBytes (o : ByteOrder) {bs : Bytes} (h : bs.length = n) :
    o.littleToNative n (o.ofObjectBytes bs) = leNat bs := by
  subst h
  cases o with
  | little => rfl
  | big =>
    have hr := leBytes_leNat bs.reverse
    rw [List.length_reverse] at hr
    rw [littleToNative, ofObjectBytes, byteSwap, hr, List.reverse_reverse]

end ByteOrder

/-- The arithmetic types other than `bool`, with the sizes of an LP64 platform. -/
inductive Num where
  | char | unsignedChar
  | short | unsignedShort
  | int | unsignedInt
  | long | unsignedLong
  | longLong | unsignedLongLong
  | float | double | longDouble
deriving DecidableEq, Repr

namespace Num

def size : Num → Nat
  | .char | .unsignedChar => 1
  | .short | .unsignedShort => 2
  | .int | .unsignedInt | .float => 4
  | .long | .unsignedLong | .longLong | .unsignedLongLong | .double => 8
  | .longDouble => 16

def isSigned : Num → Bool
  | .char | .short | .int | .long | .longLong => true
  | _ => false

/-- The overloads of `response::operator<<`: there is none for the two character types. -/
def responseHas : Num → Bool
  | .char | .unsignedChar => false
  | _ => true

def promotion : Num → Num
  | .char | .unsignedChar | .short | .unsignedShort => .int
  | .float => .double
  | k => k

/-- Overload resolution prefers an exact match, then a promotion, to any conversion. -/
def overload (k : Num) : Num := if k.responseHas then k else k.promotion

def argument (k : Num) (v : BitVec (8 * k.size)) : BitVec (8 * k.overload.size) :=
  if k.isSigned then v.signExtend _ else v.setWidth _

def isWide (k : Num) : Bool := decide (1 < k.size)

theorem overload_of_wide (h : isWide k = true) : k.overload = k := by
  cases k <;> first | rfl | cases h

theorem argument_of_wide (h : isWide k = true) (v : BitVec (8 * k.size)) :
    (k.argument v).toNat = v.toNat := by
  cases k with
  | char | unsignedChar => cases h
  | short | int | long | longLong => exact congrArg _ (BitVec.signExtend_eq v)
  | unsignedShort | unsignedInt | unsignedLong | unsignedLongLong | float | double | longDouble =>
    exact congrArg _ (BitVec.setWidth_eq v)

theorem size_le (k : Num) : k.size ≤ 16 := by
  cases k <;> decide

end Num

def toUnsignedInt (n : Nat) : BitVec (8 * Num.unsignedInt.size) := BitVec.ofNat _ n

@[simp] theorem toUnsignedInt_toNat (n : Nat) : (toUnsignedInt n).toNat = n % 2 ^ 32 :=
  BitVec.toNat_ofNat n 32

/-- The types that `request::operator>>` takes. -/
inductive Ty where
  | bool
  | num (k : Num)
  | string
  | vector (T : Ty)
deriving DecidableEq, Repr

/-- The values of a type; floating point values are the bits that hold them. -/
@[reducible] def Ty.Val : Ty → Type
  | .bool => Bool
  | .num k => BitVec (8 * k.size)
  | .string => Bytes
  | .vector T => List T.Val

abbrev Value := (T : Ty) × T.Val

abbrev ResponseM := FailM Exn StackResponse

def ResponseM.putData (data : Bytes) (pos : Nat) : ResponseM Unit :=
  ExceptT.mk fun r =>
    match r.putData data pos with
    | .ok r' => (.ok (), r')
    | .error e => (.error e, r)

def doOstream (o : ByteOrder) (k : Num) (val : BitVec (8 * k.size)) : ResponseM Unit :=
  ResponseM.putData (o.objectBytes k.size (o.nativeToLittle k.size val.toNat)) StackResponse.npos

/-- A call of `response::operator<<` with an argument of arithmetic type `k`. -/
def Num.operatorShl (o : ByteOrder) (k : Num) (v : BitVec (8 * k.size)) : ResponseM Unit :=
  doOstream o k.overload (k.argument v)

def Ty.operatorShl (o : ByteOrder) : (T : Ty) → T.Val → ResponseM Unit
  | .bool, val =>
    let c : BitVec 8 := (BitVec.ofBool val).setWidth 8
    Num.operatorShl o .unsignedChar c
  | .num k, val => k.operatorShl o val
  | .string, val => do
    if val.length ≥ 2 ^ 32 then throw .badNumericCast
    let size := toUnsignedInt val.length
    Num.operatorShl o .unsignedInt size
    ResponseM.putData val StackResponse.npos
  | .vector T, val => do
    let size := toUnsignedInt val.length
    Num.operatorShl o .unsignedInt size
    val.forM (T.operatorShl o)

/-- A reader that takes its bytes from the virtual `extract_data`. -/
abbrev Extraction := Prog Nat (fun _ => Bytes)

def extractData (size : Nat) : Extraction Bytes := .call size .pure

def doIstream (o : ByteOrder) (k : Num) : Extraction (BitVec (8 * k.size)) := do
  let bytes ← extractData k.size
  return BitVec.ofNat _ (o.littleToNative k.size (o.ofObjectBytes bytes))

/-- The loop of the vector overload: `n` elements, each pushed back when it was read. -/
def readTimes (read : Extraction α) : Nat → Extraction (List α)
  | 0 => return []
  | n + 1 => do
    let v ← read
    let vs ← readTimes read n
    return v :: vs

def Ty.operatorShr (o : ByteOrder) : (T : Ty) → Extraction T.Val
  | .bool => do
    let c ← doIstream o .unsignedChar
    return c != 0
  | .num k => doIstream o k
  | .string => do
    let size ← doIstream o .unsignedInt
    extractData size.toNat
  | .vector T => do
    let size ← doIstream o .unsignedInt
    readTimes (T.operatorShr o) size.toNat

def writeAll (o : ByteOrder) : List Value → ResponseM Unit
  | [] => return
  | v :: vs => do
    v.1.operatorShl o v.2
    writeAll o vs

def readAll (o : ByteOrder) : List Ty → Extraction (List Value)
  | [] => return []
  | T :: Ts => do
    let v ← T.operatorShr o
    let vs ← readAll o Ts
    return ⟨T, v⟩ :: vs

abbrev RequestM := FailM Exn StackRequest

def RequestM.extractData (size : Nat) : RequestM Bytes :=
  ExceptT.mk fun r =>
    match r.extractData size with
    | .ok (bs, r') => (.ok bs, r')
    | .error e => (.error e, r)

def Extraction.fromRequest (t : Extraction α) : RequestM α := t.interp RequestM.extractData

end CppAlls
