import CppAlls.Core.RoundTrip

namespace CppAlls
set_option autoImplicit true

open LittleEndian Interaction

/-- A `sync_connection`: its request part and its `response_`. The last field is a history
variable, the bytes that `extract_data` has handed out so far. -/
structure Connection where
  request : StackRequest := {}
  response : StackResponse := {}
  extracted : Bytes := []

/-- The calls that a connection makes to its socket; on an SSL stream `send` is `write_some` and
`receive` is `read_some`. By `report` the code that owns the connection shows something. -/
inductive SocketCall (U : Type) where
  | send (bs : Bytes)
  | receive (size : Nat)
  | available
  | report (u : U)

/-- A socket call transfers a positive part of what it is asked for, or throws (`none`). -/
@[reducible] def SocketCall.Answer : SocketCall U → Type
  | .send bs => Option {k : Nat // 0 < k ∧ k ≤ bs.length}
  | .receive size => Option {bs : Bytes // 0 < bs.length ∧ bs.length ≤ size}
  | .available => Option Nat
  | .report _ => Unit

abbrev ConnM (U : Type) := ObjM Exn Connection (SocketCall U) SocketCall.Answer

namespace ConnM

def ofOption : Option α → ConnM U α
  | some a => pure a
  | none => throw .systemError

def send (bs : Bytes) : ConnM U {k : Nat // 0 < k ∧ k ≤ bs.length} := do
  let r : Option {k : Nat // 0 < k ∧ k ≤ bs.length} ← ObjM.invoke (.send bs : SocketCall U)
  ofOption r

def receive (size : Nat) : ConnM U {bs : Bytes // 0 < bs.length ∧ bs.length ≤ size} := do
  let r : Option {bs : Bytes // 0 < bs.length ∧ bs.length ≤ size} ←
    ObjM.invoke (.receive size : SocketCall U)
  ofOption r

def available : ConnM U Nat := do
  let r : Option Nat ← ObjM.invoke (.available : SocketCall U)
  ofOption r

def report (u : U) : ConnM U Unit := ObjM.invoke (.report u : SocketCall U)

def onRequest (f : StackRequest → Except Exn (α × StackRequest)) : ConnM U α := do
  let c ← get
  match f c.request with
  | .ok (a, r) => do
    set { c with request := r }
    return a
  | .error e => throw e

/-- An insertion into `response_`, which keeps what was appended before an exception. -/
def onResponse (m : ResponseM α) : ConnM U α :=
  ExceptT.mk fun c => .pure ((m.on c.response).1, { c with response := (m.on c.response).2 })

def resize (size : Nat) : ConnM U Unit := onRequest fun r => (fun r' => ((), r')) <$> r.resize size

def shrink : ConnM U Unit := onRequest fun r => (fun r' => ((), r')) <$> r.shrink

def fill (offset : Nat) (bs : Bytes) : ConnM U Unit :=
  onRequest fun r => (fun r' => ((), r')) <$> r.fill offset bs

def clearResponse : ConnM U Unit := modify fun c => { c with response := c.response.clear }

end ConnM

open ConnM

/-- `write_witout_size_impl`: the bytes from `begin + offset` on, until `size` are sent. -/
def writeWitoutSizeImpl (begin' : Bytes) (size offset : Nat) : ConnM U Unit :=
  if offset = size then return
  else do
    let k ← send ((begin'.drop offset).take (size - offset))
    writeWitoutSizeImpl begin' size (offset + k)
termination_by size - offset
decreasing_by
  have hk := k.2
  simp only [List.length_take] at hk
  omega

def writeWitoutSize : ConnM U Unit := do
  let c ← get
  let size := (toUnsignedInt c.response.pimpl.length).toNat
  writeWitoutSizeImpl c.response.pimpl size 0
  clearResponse

def writeWithSize (o : ByteOrder) : ConnM U Unit := do
  let c ← get
  if c.response.pimpl.length = 0 then return
  let size := (toUnsignedInt (c.response.pimpl.length + Num.unsignedInt.size)).toNat
  let littleSize := o.nativeToLittle Num.unsignedInt.size size
  onResponse (ResponseM.putData (o.objectBytes Num.unsignedInt.size littleSize) 0)
  let c ← get
  writeWitoutSizeImpl c.response.pimpl size 0
  clearResponse

/-- `read_without_size_impl`: fills the request from `begin() + offset` on, up to `size`. -/
def readWithoutSizeImpl (size offset : Nat) : ConnM U Unit :=
  if offset = size then return
  else do
    let bs ← receive (size - offset)
    fill offset bs
    readWithoutSizeImpl size (offset + bs.1.length)
termination_by size - offset
decreasing_by
  have := bs.2
  omega

structure Virtual (U : Type) where
  read : Nat → ConnM U Unit
  write : ConnM U Unit

def readWithoutSize (write : ConnM U Unit) (size : Nat) : ConnM U Unit := do
  write
  shrink
  resize size
  readWithoutSizeImpl size 0

namespace Connection

/-- `stack_request::extract_data`. -/
def stackExtractData (size : Nat) : ConnM U Bytes := do
  let bs ← onRequest fun r => r.extractData size
  modify fun c => { c with extracted := c.extracted ++ bs }
  return bs

/-- `sync_connection::extract_data`. -/
def extractData (read : Nat → ConnM U Unit) (size : Nat) : ConnM U Bytes := do
  let c ← get
  if c.request.pimpl.length < addSize size c.request.dataExtracted then
    read (subSize (addSize size c.request.dataExtracted) c.request.pimpl.length)
  stackExtractData size

end Connection

/-- The sockets whose frames `read_with_size` measures in different ways. -/
inductive SocketKind where
  | plain
  | ssl
deriving DecidableEq, Repr

/-- On an SSL stream one `read_some` fills the front of an uninitialised integer; `garbage` is
what it held before. -/
def dataSize (o : ByteOrder) (garbage : Bytes) : SocketKind → ConnM U Nat
  | .plain => available
  | .ssl => do
    let bs ← receive Num.unsignedInt.size
    let size := o.ofObjectBytes (bs ++ garbage.drop bs.1.length)
    return o.littleToNative Num.unsignedInt.size size

def assertActualSize (o : ByteOrder) (extract : Nat → ConnM U Bytes) (size : Nat) :
    SocketKind → ConnM U Unit
  | .plain => do
    let actualSize ← (doIstream o .unsignedInt).interp extract
    if size ≠ actualSize.toNat then throw (.logicError "Packet sizes missmatch")
  | .ssl => return

/-- `read_with_size`, which can call itself through `operator>>`; `depth` is the room left on the
stack. -/
def readWithSize (o : ByteOrder) (garbage : Bytes) (kind : SocketKind) (write : ConnM U Unit) :
    (depth : Nat) → ConnM U Unit
  | 0 => throw .stackOverflow
  | depth + 1 => do
    write
    shrink
    let size ← dataSize o garbage kind
    resize size
    readWithoutSizeImpl size 0
    assertActualSize o
      (Connection.extractData fun _ => readWithSize o garbage kind write depth) size kind

def tcpConnectionRaw : Virtual U where
  read := readWithoutSize writeWitoutSize
  write := writeWitoutSize

def tcpSslConnectionRaw : Virtual U where
  read := readWithoutSize writeWitoutSize
  write := writeWitoutSize

def tcpConnection (o : ByteOrder) (depth : Nat) : Virtual U where
  read _ := readWithSize o [] .plain (writeWithSize o) depth
  write := writeWithSize o

def udpConnection (o : ByteOrder) (depth : Nat) : Virtual U where
  read _ := readWithSize o [] .plain (writeWithSize o) depth
  write := writeWithSize o

def tcpSslConnection (o : ByteOrder) (garbage : Bytes) (depth : Nat) : Virtual U where
  read _ := readWithSize o garbage .ssl (writeWithSize o) depth
  write := writeWithSize o

def Connection.operatorShl (o : ByteOrder) (T : Ty) (v : T.Val) : ConnM U Unit :=
  onResponse (T.operatorShl o v)

namespace Virtual

/-- A reader run on a connection: each extraction is the virtual one. -/
def run (V : Virtual U) (t : Extraction α) : ConnM U α := t.interp (Connection.extractData V.read)

def operatorShr (V : Virtual U) (o : ByteOrder) (T : Ty) : ConnM U T.Val := V.run (T.operatorShr o)

end Virtual

end CppAlls
