import RockAMali.Library.ByteOrder

/-!
The frame content that `udp_send.cpp` writes with `--do-fill` and the one that
`udp_receive.cpp` reads, with the resize of its buffers on the first frame.
-/

namespace RockAMali

structure Datagram where
  size : Nat
  bytes : Nat → UInt8

/-! The receiver: `bytes` is the memory from `buffer.data()` on, and `bindex` are
`bindexWidth` words of it from byte `bindexStart` on. -/

structure ReceiveBuffer where
  width : Nat
  bytes : Nat → UInt8
  nBytes : Nat
  bindexStart : Nat
  bindexWidth : Nat

def ReceiveBuffer.initial (width shift : Nat) (memory : Nat → UInt8) : ReceiveBuffer where
  width := width
  bytes := memory
  nBytes := 4
  -- (unsigned int*)(buffer.data()+shift)
  bindexStart := shift
  bindexWidth := width / 4 - shift / 4

def ReceiveBuffer.recvfrom (state : ReceiveBuffer) (datagram : Datagram) : ReceiveBuffer :=
  { state with
    nBytes := min state.width datagram.size
    bytes := fun address =>
      if address < min state.width datagram.size then datagram.bytes address
      else state.bytes address }

/-- The first frame may resize the containers: `buffer.assign` leaves memory of
any content. -/
def ReceiveBuffer.receive (shift : Nat) (fresh : Nat → UInt8) (i : Nat) (datagram : Datagram)
    (state : ReceiveBuffer) : ReceiveBuffer :=
  let received := state.recvfrom datagram
  if i = 0 ∧ received.nBytes ≠ received.width then
    { received with
      width := received.nBytes
      bytes := fresh
      -- (unsigned int*)buffer.data()+shift
      bindexStart := 4 * shift
      bindexWidth := received.nBytes / 4 - shift / 4 }
  else received

section Content

variable (order : ByteOrder) (endianSwap : Bool) (shift : Nat) (state : ReceiveBuffer)

def ReceiveBuffer.index : UInt32 :=
  let b := order.load state.bytes shift
  if endianSwap then order.ntohl b else b

/-- `CImg::operator==` with a value, which no empty image is equal to. -/
def ReceiveBuffer.bindexEquals (value : UInt32) : Bool :=
  state.bindexWidth != 0 && (List.range state.bindexWidth).all fun word =>
    order.load state.bytes (state.bindexStart + 4 * word) == value

/-- The full content check, `bindex!=sindex`. -/
def ReceiveBuffer.checkFails : Bool :=
  let index := state.index order endianSwap shift
  let sindex := if endianSwap then order.ntohl index else index
  !state.bindexEquals order sindex

end Content

/-- Frame `i` of the sender: each whole word of the buffer is the frame number,
`rest` is the random content behind the last one. -/
def UdpSend.frame (order : ByteOrder) (endianSwap : Bool) (width : Nat) (rest : Nat → UInt8)
    (i : Nat) : Datagram where
  size := width
  bytes address :=
    let value := if endianSwap then order.ntohl (UInt32.ofNat i) else UInt32.ofNat i
    if address < 4 * (width / 4) then order.byte value (address % 4) else rest address

structure Link where
  sendOrder : ByteOrder
  receiveOrder : ByteOrder
  endianSwap : Bool
  sendWidth : Nat
  receiveWidth : Nat
  shift : Nat
  rest : Nat → UInt8
  memory : Nat → UInt8

namespace Link

structure Valid (link : Link) : Prop where
  aligned : 4 ∣ link.shift
  room : link.shift + 4 ≤ min link.sendWidth link.receiveWidth
  order : link.endianSwap = true ∨ link.sendOrder = link.receiveOrder

variable (link : Link) (fresh : Nat → UInt8)

def frame (i : Nat) : Datagram :=
  UdpSend.frame link.sendOrder link.endianSwap link.sendWidth link.rest i

def received : Nat → ReceiveBuffer
  | 0 => (ReceiveBuffer.initial link.receiveWidth link.shift link.memory).receive link.shift fresh 0
      (link.frame 0)
  | i + 1 => (received i).receive link.shift fresh (i + 1) (link.frame (i + 1))

structure Agrees (i : Nat) : Prop where
  index : (link.received fresh i).index link.receiveOrder link.endianSwap link.shift =
    UInt32.ofNat i
  passes : (link.received fresh i).checkFails link.receiveOrder link.endianSwap link.shift = false
  start : (link.received fresh i).bindexStart = link.shift
  inside : ∀ word < (link.received fresh i).bindexWidth,
    (link.received fresh i).bindexStart + 4 * word + 4 ≤ min link.sendWidth link.receiveWidth

structure Filled (state : ReceiveBuffer) (i : Nat) : Prop where
  width : state.width = link.receiveWidth
  start : state.bindexStart = link.shift
  words : state.bindexWidth = link.receiveWidth / 4 - link.shift / 4
  bytes : ∀ address < link.receiveWidth, state.bytes address = (link.frame i).bytes address

variable {link} {fresh}

theorem Filled.receive {state : ReceiveBuffer} (i : Nat) (fits : link.receiveWidth ≤ link.sendWidth)
    (width : state.width = link.receiveWidth) (start : state.bindexStart = link.shift)
    (words : state.bindexWidth = link.receiveWidth / 4 - link.shift / 4) (number : Nat) :
    link.Filled (state.receive link.shift fresh number (link.frame i)) i := by
  have size : (link.frame i).size = link.sendWidth := rfl
  have whole : min state.width (link.frame i).size = state.width := by
    rw [width, size]
    exact Nat.min_eq_left fits
  have same : state.receive link.shift fresh number (link.frame i) =
      state.recvfrom (link.frame i) := by
    simp only [ReceiveBuffer.receive, ReceiveBuffer.recvfrom, whole, ne_eq, not_true_eq_false,
      and_false, if_false]
  rw [same]
  constructor
  · exact width
  · exact start
  · exact words
  · intro address bound
    rw [ReceiveBuffer.recvfrom, whole, width]
    exact if_pos bound

theorem filled (fits : link.receiveWidth ≤ link.sendWidth) (i : Nat) :
    link.Filled (link.received fresh i) i := by
  induction i with
  | zero => exact Filled.receive 0 fits rfl rfl rfl 0
  | succ i ih => exact Filled.receive (i + 1) fits ih.width ih.start ih.words (i + 1)

theorem Filled.word {state : ReceiveBuffer} {i : Nat} (filled : link.Filled state i)
    (fits : link.receiveWidth ≤ link.sendWidth) {address : Nat} (aligned : 4 ∣ address)
    (room : address + 4 ≤ link.receiveWidth) {offset : Nat} (bound : offset < 4) :
    state.bytes (address + offset) =
      (if link.endianSwap then ByteOrder.big else link.sendOrder).byte (UInt32.ofNat i) offset := by
  have inside : address + offset < 4 * (link.sendWidth / 4) := by omega
  have part : (address + offset) % 4 = offset := by omega
  rw [filled.bytes _ (by omega)]
  simp only [frame, UdpSend.frame, inside, if_true, part]
  cases link.endianSwap with
  | true => exact ByteOrder.byte_ntohl _ bound
  | false => rfl

theorem Filled.index {state : ReceiveBuffer} {i : Nat} (filled : link.Filled state i)
    (fits : link.receiveWidth ≤ link.sendWidth) (valid : link.Valid) :
    state.index link.receiveOrder link.endianSwap link.shift = UInt32.ofNat i := by
  have room := valid.room
  have stored (offset : Nat) (bound : offset < 4) :=
    filled.word fits valid.aligned (by omega) bound
  rw [ReceiveBuffer.index]
  by_cases swap : link.endianSwap = true
  · simp only [swap, if_true] at stored ⊢
    rw [ByteOrder.ntohl_load]
    exact ByteOrder.load_eq stored
  · have same := valid.order.resolve_left swap
    simp only [swap, same] at stored ⊢
    exact ByteOrder.load_eq stored

theorem Filled.passes {state : ReceiveBuffer} {i : Nat} (filled : link.Filled state i)
    (fits : link.receiveWidth ≤ link.sendWidth) (valid : link.Valid) :
    state.checkFails link.receiveOrder link.endianSwap link.shift = false := by
  have room := valid.room
  have aligned := valid.aligned
  have sindex : (if link.endianSwap then link.receiveOrder.ntohl
      (state.index link.receiveOrder link.endianSwap link.shift)
      else state.index link.receiveOrder link.endianSwap link.shift) =
        link.receiveOrder.load state.bytes link.shift := by
    simp only [ReceiveBuffer.index]
    cases link.endianSwap with
    | true => exact ByteOrder.ntohl_ntohl _
    | false => rfl
  simp only [ReceiveBuffer.checkFails, sindex, ReceiveBuffer.bindexEquals, Bool.not_eq_false',
    Bool.and_eq_true, bne_iff_ne, List.all_eq_true, List.mem_range, beq_iff_eq]
  constructor
  · rw [filled.words]
    omega
  · intro word bound
    rw [filled.words] at bound
    apply ByteOrder.load_congr
    intro offset offsetBound
    rw [filled.start, filled.word fits (by omega) (by omega) offsetBound,
      filled.word fits aligned (by omega) offsetBound]

theorem received_resized (resize : link.sendWidth < link.receiveWidth) :
    (link.received fresh 0).bytes = fresh ∧
      (link.received fresh 0).bindexStart = 4 * link.shift ∧
      (link.received fresh 0).bindexWidth = link.sendWidth / 4 - link.shift / 4 := by
  have size : (link.frame 0).size = link.sendWidth := rfl
  have short : min link.receiveWidth (link.frame 0).size = link.sendWidth := by omega
  have different : link.sendWidth ≠ link.receiveWidth := by omega
  simp [received, ReceiveBuffer.receive, ReceiveBuffer.recvfrom, ReceiveBuffer.initial, short,
    different]

theorem not_agrees_resized (resize : link.sendWidth < link.receiveWidth) :
    ¬link.Agrees (fun _ => 1) 0 := by
  intro agrees
  have index := agrees.index
  rw [ReceiveBuffer.index, (received_resized resize).1] at index
  simp only [ByteOrder.load] at index
  revert index
  cases link.receiveOrder <;> cases link.endianSwap <;> decide

/-- The check of the receiver is right on every frame, whatever memory is
allocated, exactly when the first frame makes it resize nothing. -/
theorem frame_format_iff (link : Link) (valid : link.Valid) :
    (∀ fresh i, link.Agrees fresh i) ↔ link.receiveWidth ≤ link.sendWidth := by
  constructor
  · intro agrees
    by_contra larger
    exact not_agrees_resized (by omega) (agrees _ 0)
  · intro fits fresh i
    have state : link.Filled (link.received fresh i) i := filled fits i
    have room := valid.room
    have aligned := valid.aligned
    constructor
    · exact state.index fits valid
    · exact state.passes fits valid
    · exact state.start
    · intro word bound
      rw [state.words] at bound
      rw [state.start]
      omega

theorem frame_format_default_receiver :
    (∀ fresh i, Agrees ⟨.little, .big, true, 2048, 1024, 16, fun _ => 7, fun _ => 0⟩ fresh i) ↔
      1024 ≤ 2048 := by
  apply frame_format_iff
  exact ⟨by decide, by decide, Or.inl rfl⟩

theorem frame_format_larger_receiver :
    Valid ⟨.little, .little, true, 1024, 2048, 16, fun _ => 7, fun _ => 0⟩ ∧
      ¬Agrees ⟨.little, .little, true, 1024, 2048, 16, fun _ => 7, fun _ => 0⟩ (fun _ => 1) 0 := by
  constructor
  · exact ⟨by decide, by decide, Or.inl rfl⟩
  · apply not_agrees_resized
    decide

end Link

end RockAMali
