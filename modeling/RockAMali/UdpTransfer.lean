import Mathlib.Data.List.ReduceOption
import RockAMali.DropCount
import RockAMali.UdpFrame

/-!
`udp_send.cpp`, the network and `udp_receive.cpp`, from the buffer of the sender
to the counters of the receiver. With `--do-fill` the receiver counts the frames
that came through; without it the default shift reads a word that never changes.
-/

namespace RockAMali

/-- `bindex=i` with `--do-fill`, or else `bindex(0)=i`, in network order. -/
def UdpSend.update (order : ByteOrder) (endianSwap doFill : Bool) (width i : Nat)
    (buffer : Nat → UInt8) : Nat → UInt8 :=
  let value := if endianSwap then order.ntohl (UInt32.ofNat i) else UInt32.ofNat i
  fun address =>
    if address < (if doFill then 4 * (width / 4) else 4) then order.byte value (address % 4)
    else buffer address

/-- for(int i=0,itw=0;i<max_iter;++i,++itw) -/
def UdpSend.loop (order : ByteOrder) (endianSwap doFill : Bool) (width : Nat) :
    Nat → Nat → (Nat → UInt8) → List Datagram
  | 0, _, _ => []
  | left + 1, i, buffer =>
      let buffer := UdpSend.update order endianSwap doFill width i buffer
      ⟨width, buffer⟩ :: UdpSend.loop order endianSwap doFill width left (i + 1) buffer

/-! The loop of the receiver. `failures` are the frame numbers that the check of
the full content has printed. -/

structure UdpReceiver where
  buffer : ReceiveBuffer
  loop : Receive
  failures : List UInt32

namespace Link

section Definitions

variable (link : Link) (doNetcdf doCheck : Bool) (fresh : Nat → UInt8)

def start : UdpReceiver :=
  ⟨ReceiveBuffer.initial link.receiveWidth link.shift link.memory, Receive.initial, []⟩

def receiveFrame (state : UdpReceiver) (datagram : Datagram) : UdpReceiver :=
  let buffer := state.buffer.receive link.shift fresh state.loop.i datagram
  let index := buffer.index link.receiveOrder link.endianSwap link.shift
  { buffer
    loop := state.loop.iteration doNetcdf index
    failures :=
      if doCheck && buffer.checkFails link.receiveOrder link.endianSwap link.shift then
        state.failures ++ [index]
      else state.failures }

/-- An arrival is a datagram, or a `recvfrom` that times out: the receiver waits
for its first frame for ever, and leaves the loop at the next time out. -/
def receiveLoop (maxIter : Nat) : UdpReceiver → List (Option Datagram) → UdpReceiver
  | state, [] => state
  | state, none :: rest =>
      if state.loop.i < maxIter ∧ state.loop.i = 0 then receiveLoop maxIter state rest else state
  | state, some datagram :: rest =>
      if state.loop.i < maxIter then
        receiveLoop maxIter (link.receiveFrame doNetcdf doCheck fresh state datagram) rest
      else state

def datagrams (doFill : Bool) (count : Nat) : List Datagram :=
  UdpSend.loop link.sendOrder link.endianSwap doFill link.sendWidth count 0 link.rest

def arrive (doFill : Bool) (count : Nat) (arrival : Option Nat) : Option Datagram :=
  arrival.bind fun i => (link.datagrams doFill count)[i]?

def transfer (doFill : Bool) (count maxIter : Nat) (arrivals : List (Option Nat)) : UdpReceiver :=
  link.receiveLoop doNetcdf doCheck fresh maxIter link.start
    (arrivals.map (link.arrive doFill count))

end Definitions

end Link

/-- The arrivals that the receiver takes: after its wait for the first, until a
time out or the requested number. -/
def accepted {γ : Type*} (maxIter : Nat) (arrivals : List (Option γ)) : List γ :=
  ((arrivals.dropWhile Option.isNone).takeWhile Option.isSome).reduceOption.take maxIter

section Sender

variable {order : ByteOrder} {endianSwap doFill : Bool} {width : Nat}

theorem UdpSend.update_update (i j : Nat) (buffer : Nat → UInt8) :
    UdpSend.update order endianSwap doFill width j
        (UdpSend.update order endianSwap doFill width i buffer) =
      UdpSend.update order endianSwap doFill width j buffer := by
  funext address
  simp only [UdpSend.update]
  by_cases inside : address < (if doFill then 4 * (width / 4) else 4)
  · rw [if_pos inside, if_pos inside]
  · rw [if_neg inside, if_neg inside, if_neg inside]

theorem UdpSend.loop_eq (count i : Nat) (buffer : Nat → UInt8) :
    UdpSend.loop order endianSwap doFill width count i buffer =
      (List.range' i count).map fun j =>
        ⟨width, UdpSend.update order endianSwap doFill width j buffer⟩ := by
  induction count generalizing i buffer with
  | zero => rfl
  | succ count ih =>
      rw [UdpSend.loop, ih, List.range'_succ, List.map_cons]
      simp only [UdpSend.update_update]

end Sender

section Accepted

variable {γ δ : Type*} {maxIter : Nat} {arrivals : List (Option γ)}

theorem accepted_map (f : γ → δ) :
    accepted maxIter (arrivals.map (Option.map f)) = (accepted maxIter arrivals).map f := by
  have nones : Option.isNone ∘ Option.map f = Option.isNone := by
    funext arrival
    cases arrival <;> rfl
  have somes : Option.isSome ∘ Option.map f = Option.isSome := by
    funext arrival
    cases arrival <;> rfl
  rw [accepted, accepted, List.dropWhile_map, nones, List.takeWhile_map, somes,
    List.reduceOption_map, List.map_take]

theorem mem_of_accepted {item : γ} (member : item ∈ accepted maxIter arrivals) :
    some item ∈ arrivals := by
  have early := List.mem_of_mem_take member
  rw [List.reduceOption_mem_iff] at early
  exact (List.dropWhile_sublist _).mem ((List.takeWhile_sublist _).mem early)

end Accepted

namespace Link

section Loop

variable {link : Link} {doNetcdf doCheck doFill : Bool} {fresh : Nat → UInt8}
  {count maxIter : Nat} {state : UdpReceiver}

theorem receiveLoop_started (started : 0 < state.loop.i) (arrivals : List (Option Datagram)) :
    link.receiveLoop doNetcdf doCheck fresh maxIter state arrivals =
      ((arrivals.takeWhile Option.isSome).reduceOption.take (maxIter - state.loop.i)).foldl
        (link.receiveFrame doNetcdf doCheck fresh) state := by
  induction arrivals generalizing state with
  | nil => simp [receiveLoop]
  | cons arrival arrivals ih =>
      cases arrival with
      | none =>
          have before : state.loop.i ≠ 0 := Nat.ne_of_gt started
          simp [receiveLoop, before]
      | some datagram =>
          have next : (link.receiveFrame doNetcdf doCheck fresh state datagram).loop.i =
            state.loop.i + 1 := rfl
          have later := ih (Nat.lt_of_lt_of_eq (Nat.succ_pos _) next.symm)
          rw [next] at later
          rw [receiveLoop, List.takeWhile_cons_of_pos Option.isSome_some,
            List.reduceOption_cons_of_some]
          by_cases inside : state.loop.i < maxIter
          · have left : maxIter - state.loop.i = (maxIter - (state.loop.i + 1)) + 1 := by omega
            rw [if_pos inside, later, left, List.take_succ_cons, List.foldl_cons]
          · rw [if_neg inside, Nat.sub_eq_zero_of_le (Nat.le_of_not_lt inside), List.take_zero,
              List.foldl_nil]

theorem receiveLoop_eq (first : state.loop.i = 0) (arrivals : List (Option Datagram)) :
    link.receiveLoop doNetcdf doCheck fresh maxIter state arrivals =
      (accepted maxIter arrivals).foldl (link.receiveFrame doNetcdf doCheck fresh) state := by
  cases maxIter with
  | zero => cases arrivals with
    | nil => rfl
    | cons arrival arrivals => cases arrival <;> simp [receiveLoop, accepted]
  | succ maxIter =>
      induction arrivals with
      | nil => rfl
      | cons arrival arrivals ih =>
          cases arrival with
          | none => simpa [receiveLoop, first, accepted] using ih
          | some datagram =>
              have next : (link.receiveFrame doNetcdf doCheck fresh state datagram).loop.i = 1 := by
                show state.loop.i + 1 = 1
                rw [first]
              have later : link.receiveLoop doNetcdf doCheck fresh (maxIter + 1)
                  (link.receiveFrame doNetcdf doCheck fresh state datagram) arrivals = _ :=
                receiveLoop_started (Nat.lt_of_lt_of_eq Nat.one_pos next.symm) arrivals
              rw [next, Nat.add_sub_cancel] at later
              simp [receiveLoop, first, accepted, later]

def sent (link : Link) (doFill : Bool) (i : Nat) : Datagram :=
  ⟨link.sendWidth, UdpSend.update link.sendOrder link.endianSwap doFill link.sendWidth i link.rest⟩

theorem sent_filled (i : Nat) : link.sent true i = link.frame i := by
  simp [sent, UdpSend.update, frame, UdpSend.frame]

theorem datagrams_eq (link : Link) (doFill : Bool) (count : Nat) :
    link.datagrams doFill count = (List.range count).map (link.sent doFill) := by
  rw [datagrams, UdpSend.loop_eq, List.range_eq_range']
  rfl

theorem transfer_eq {arrivals : List (Option Nat)} (known : ∀ i, some i ∈ arrivals → i < count) :
    link.transfer doNetcdf doCheck fresh doFill count maxIter arrivals =
      ((accepted maxIter arrivals).map (link.sent doFill)).foldl
        (link.receiveFrame doNetcdf doCheck fresh) link.start := by
  have frames : arrivals.map (link.arrive doFill count) =
      arrivals.map (Option.map (link.sent doFill)) := by
    apply List.map_congr_left
    intro arrival member
    cases arrival with
    | none => rfl
    | some i => simp [arrive, datagrams_eq, known i member]
  rw [transfer, receiveLoop_eq rfl, frames, accepted_map]

structure Sized (link : Link) (buffer : ReceiveBuffer) : Prop where
  width : buffer.width = link.receiveWidth
  start : buffer.bindexStart = link.shift
  words : buffer.bindexWidth = link.receiveWidth / 4 - link.shift / 4

structure Reads (link : Link) (doFill : Bool) (value : Nat → UInt32) : Prop where
  sized : ∀ buffer fresh number i, link.Sized buffer →
    link.Sized (buffer.receive link.shift fresh number (link.sent doFill i))
  index : ∀ buffer fresh number i, link.Sized buffer →
    (buffer.receive link.shift fresh number (link.sent doFill i)).index link.receiveOrder
      link.endianSwap link.shift = value i

theorem start_sized (link : Link) : link.Sized link.start.buffer := ⟨rfl, rfl, rfl⟩

theorem Reads.loop {value : Nat → UInt32} (reads : link.Reads doFill value)
    (sized : link.Sized state.buffer) (numbers : List Nat) :
    ((numbers.map (link.sent doFill)).foldl
        (link.receiveFrame doNetcdf doCheck fresh) state).loop =
      state.loop.run doNetcdf (numbers.map value) := by
  induction numbers generalizing state with
  | nil => rfl
  | cons i numbers ih =>
      have next := reads.sized state.buffer fresh state.loop.i i sized
      have index := reads.index state.buffer fresh state.loop.i i sized
      rw [List.map_cons, List.foldl_cons, ih next, List.map_cons, Receive.run]
      simp only [receiveFrame, index]

theorem filled_reads (valid : link.Valid) (fits : link.receiveWidth ≤ link.sendWidth) :
    link.Reads true UInt32.ofNat := by
  constructor
  · intro buffer fresh number i sized
    have filled : link.Filled (buffer.receive link.shift fresh number (link.frame i)) i :=
      Filled.receive i fits sized.width sized.start sized.words number
    rw [sent_filled]
    exact ⟨filled.width, filled.start, filled.words⟩
  · intro buffer fresh number i sized
    rw [sent_filled]
    exact Filled.index (Filled.receive i fits sized.width sized.start sized.words number) fits valid

theorem filled_failures (valid : link.Valid) (fits : link.receiveWidth ≤ link.sendWidth)
    (sized : link.Sized state.buffer) (numbers : List Nat) :
    ((numbers.map (link.sent true)).foldl
        (link.receiveFrame doNetcdf doCheck fresh) state).failures = state.failures := by
  induction numbers generalizing state with
  | nil => rfl
  | cons i numbers ih =>
      have filled : link.Filled
          (state.buffer.receive link.shift fresh state.loop.i (link.frame i)) i :=
        Filled.receive i fits sized.width sized.start sized.words state.loop.i
      have next := (filled_reads valid fits).sized state.buffer fresh state.loop.i i sized
      have passes := filled.passes fits valid
      rw [List.map_cons, List.foldl_cons, ih next]
      simp only [receiveFrame, sent_filled, passes, Bool.and_false, Bool.false_eq_true, if_false]

theorem sized_receive (fits : link.receiveWidth ≤ link.sendWidth) {buffer : ReceiveBuffer}
    (sized : link.Sized buffer) (number i : Nat) :
    link.Sized (buffer.receive link.shift fresh number (link.sent doFill i)) ∧
      ∀ address < link.receiveWidth,
        (buffer.receive link.shift fresh number (link.sent doFill i)).bytes address =
          (link.sent doFill i).bytes address := by
  have size : (link.sent doFill i).size = link.sendWidth := rfl
  have whole : min buffer.width (link.sent doFill i).size = buffer.width := by
    rw [sized.width, size]
    exact Nat.min_eq_left fits
  have same : buffer.receive link.shift fresh number (link.sent doFill i) =
      buffer.recvfrom (link.sent doFill i) := by
    simp only [ReceiveBuffer.receive, ReceiveBuffer.recvfrom, whole, ne_eq, not_true_eq_false,
      and_false, if_false]
  rw [same]
  refine ⟨⟨sized.width, sized.start, sized.words⟩, ?_⟩
  intro address inside
  rw [ReceiveBuffer.recvfrom, whole, sized.width]
  exact if_pos inside

theorem sent_first (i : Nat) {offset : Nat} (bound : offset < 4) :
    (link.sent false i).bytes offset =
      (if link.endianSwap then ByteOrder.big else link.sendOrder).byte (UInt32.ofNat i) offset := by
  simp only [sent, UdpSend.update, Bool.false_eq_true, if_false, if_pos bound,
    Nat.mod_eq_of_lt bound]
  cases link.endianSwap with
  | true => exact ByteOrder.byte_ntohl _ bound
  | false => rfl

theorem sent_rest (i : Nat) {address : Nat} (behind : 4 ≤ address) :
    (link.sent false i).bytes address = link.rest address := by
  simp only [sent, UdpSend.update, Bool.false_eq_true, if_false, if_neg (Nat.not_lt.mpr behind)]

def restIndex (link : Link) : UInt32 :=
  let b := link.receiveOrder.load link.rest link.shift
  if link.endianSwap then link.receiveOrder.ntohl b else b

def quickIndex (link : Link) (i : Nat) : UInt32 :=
  if link.shift = 0 then UInt32.ofNat i else link.restIndex

theorem quick_reads (valid : link.Valid) (fits : link.receiveWidth ≤ link.sendWidth) :
    link.Reads false link.quickIndex := by
  have room := valid.room
  constructor
  · intro buffer fresh number i sized
    exact (sized_receive fits sized number i).1
  · intro buffer fresh number i sized
    have bytes : ∀ address < link.receiveWidth,
        (buffer.receive link.shift fresh number (link.sent false i)).bytes address = _ :=
      (sized_receive fits sized number i).2
    rw [quickIndex]
    split
    · rename_i start
      have stored (offset : Nat) (bound : offset < 4) :
          (buffer.receive link.shift fresh number (link.sent false i)).bytes (0 + offset) =
            (if link.endianSwap then ByteOrder.big else link.sendOrder).byte
              (UInt32.ofNat i) offset := by
        rw [Nat.zero_add, bytes offset (by omega), sent_first i bound]
      rw [ReceiveBuffer.index, start]
      rw [start] at stored
      by_cases swap : link.endianSwap = true
      · simp only [swap, if_true] at stored ⊢
        rw [ByteOrder.ntohl_load]
        exact ByteOrder.load_eq stored
      · have same := valid.order.resolve_left swap
        simp only [swap, same] at stored ⊢
        exact ByteOrder.load_eq stored
    · have aligned := valid.aligned
      have word : link.receiveOrder.load
          (buffer.receive link.shift fresh number (link.sent false i)).bytes link.shift =
            link.receiveOrder.load link.rest link.shift := by
        apply ByteOrder.load_congr
        intro offset bound
        rw [bytes _ (by omega), sent_rest i (by omega)]
      rw [ReceiveBuffer.index, word]
      rfl

end Loop

end Link

section Counts

variable {first : Nat} {rest : List Nat}

theorem last_of_chain (chain : (first :: rest).IsChain (· < ·)) :
    first + rest.length ≤ (first :: rest).getLast (List.cons_ne_nil first rest) ∧
      (first + rest.length = (first :: rest).getLast (List.cons_ne_nil first rest) ↔
        first :: rest = List.range' first (rest.length + 1)) := by
  induction rest generalizing first with
  | nil => simp
  | cons next rest ih =>
      rw [List.isChain_cons_cons] at chain
      obtain ⟨least, contiguous⟩ := ih chain.2
      rw [List.getLast_cons (List.cons_ne_nil next rest), List.length_cons]
      refine ⟨by omega, ?_⟩
      rw [List.range'_succ, List.cons_inj_right]
      constructor
      · intro reached
        have same : next = first + 1 := by omega
        subst same
        exact contiguous.mp (by omega)
      · intro same
        have head : next = first + 1 := by
          rw [List.range'_succ, List.cons.injEq] at same
          exact same.1
        subst head
        have reached := contiguous.mpr same
        omega

theorem sent_of_chain (chain : (first :: rest).IsChain (· < ·))
    (small : ∀ i ∈ first :: rest, i < 2 ^ 31) : (first :: rest).IsChain Sent := by
  induction rest generalizing first with
  | nil => exact .singleton first
  | cons next rest ih =>
      rw [List.isChain_cons_cons] at chain ⊢
      have nextSmall := small next (by simp)
      refine ⟨⟨chain.1, by omega⟩, ih chain.2 ?_⟩
      intro i member
      exact small i (List.mem_cons_of_mem first member)

theorem snd_mem_of_pairs {α : Type*} {first : α} {rest : List α} :
    ∀ pair ∈ pairs first rest, pair.2 ∈ rest := by
  induction rest generalizing first with
  | nil => simp [pairs]
  | cons next rest ih =>
      rw [pairs, List.forall_mem_cons]
      exact ⟨List.mem_cons_self, fun pair member => List.mem_cons_of_mem next (ih pair member)⟩

theorem not_wraps (sent : (first :: rest).IsChain Sent)
    (small : ∀ i ∈ first :: rest, i < 2 ^ 31) : ∀ pair ∈ pairs first rest, ¬Wraps pair := by
  intro pair member wraps
  have later := small pair.2 (List.mem_cons_of_mem first (snd_mem_of_pairs pair member))
  have order := (sent_of_mem sent pair member).1
  simp only [Wraps] at wraps
  omega

/-- What the counters say about frames that come in order: as many drops as gaps,
as many index drops as frames between the first and the last that are missing, and
the verdict that the frames are without a gap. -/
structure Counted (state : Receive) (first : Nat) (rest : List Nat) : Prop where
  accounted : Accounted state first rest
  verdict : state.testStatus = true ↔ first :: rest = List.range' first (rest.length + 1)

theorem counted_of_chain (doNetcdf : Bool) (chain : (first :: rest).IsChain (· < ·))
    (small : ∀ i ∈ first :: rest, i < 2 ^ 31) :
    Counted (Receive.initial.run doNetcdf ((first :: rest).map UInt32.ofNat)) first rest := by
  have sent := sent_of_chain chain small
  obtain ⟨least, contiguous⟩ := last_of_chain chain
  have last := small _ (List.getLast_mem (List.cons_ne_nil first rest))
  have cancel := (wrapsCancel_iff sent (by omega)).mpr (not_wraps sent small)
  have accounted := (accounted_iff doNetcdf sent (by omega)).mpr cancel
  refine ⟨accounted, ?_⟩
  rw [← contiguous, Receive.testStatus, beq_iff_eq, accounted.countDrops, missing]
  omega

theorem counted_constant (doNetcdf : Bool) (value : UInt32) (count : Nat) :
    let last := Receive.initial.run doNetcdf (List.replicate (count + 1) value)
    last.countDrops = count % 2 ^ 64 ∧ last.countDrop = count % 2 ^ 64 := by
  intro last
  have same : pairs value (List.replicate count value) =
      List.replicate count (value, value) := by
    induction count with
    | zero => rfl
    | succ count ih => rw [List.replicate_succ, pairs, ih, ← List.replicate_succ]
  have none : increment value value = 0 := by simp [increment]
  have one : dropped value value = 1 := by
    rw [dropped, none]
    decide
  obtain ⟨total, number⟩ :=
    Receive.run_initial doNetcdf value (List.replicate count value)
  simp only [same, List.map_replicate, List.sum_replicate, List.countP_replicate, one, none,
    ne_eq, zero_ne_one, not_false_eq_true, decide_true, if_true, nsmul_eq_mul] at total number
  refine ⟨?_, number⟩
  rw [← List.replicate_succ] at total
  have value : (last.countDrops : Int) = (count * 1 : Int) % 2 ^ 64 := total
  omega

end Counts

namespace Link

variable {link : Link} {count maxIter : Nat} {arrivals : List (Option Nat)}

theorem accepted_known (known : ∀ i, some i ∈ arrivals → i < count) :
    ∀ i ∈ accepted maxIter arrivals, i < count :=
  fun i member => known i (mem_of_accepted member)

/-- With `--do-fill` the receiver has the number of each frame that it takes and
no check fails, whatever the network loses, repeats or reorders; where the frames
come in order its counters are those of what is missing between them. -/
theorem filled_transfer (valid : link.Valid) (fits : link.receiveWidth ≤ link.sendWidth)
    (known : ∀ i, some i ∈ arrivals → i < count) (doNetcdf doCheck : Bool)
    (fresh : Nat → UInt8) :
    let last := link.transfer doNetcdf doCheck fresh true count maxIter arrivals
    last.failures = [] ∧
      last.loop = Receive.initial.run doNetcdf ((accepted maxIter arrivals).map UInt32.ofNat) ∧
      ∀ first rest, accepted maxIter arrivals = first :: rest →
        (accepted maxIter arrivals).IsChain (· < ·) → count ≤ 2 ^ 31 →
          Counted last.loop first rest := by
  intro last
  have transferred : last = _ := transfer_eq known
  have loop : last.loop =
      Receive.initial.run doNetcdf ((accepted maxIter arrivals).map UInt32.ofNat) := by
    rw [transferred]
    exact (filled_reads valid fits).loop link.start_sized _
  refine ⟨?_, loop, ?_⟩
  · rw [transferred]
    exact filled_failures valid fits link.start_sized _
  · intro first rest taken chain small
    rw [loop, taken]
    rw [taken] at chain
    apply counted_of_chain doNetcdf chain
    intro i member
    rw [← taken] at member
    have bound := accepted_known known i member
    omega

theorem filled_transfer_lossy :
    let link : Link := ⟨.little, .big, true, 2048, 1024, 16, fun _ => 7, fun _ => 0⟩
    let arrivals := [none, some 0, some 2, some 3, none, some 5]
    let last := link.transfer true true (fun _ => 1) true 6 9 arrivals
    accepted 9 arrivals = [0, 2, 3] ∧ last.failures = [] ∧
      last.loop = Receive.initial.run true ((accepted 9 arrivals).map UInt32.ofNat) ∧
      ∀ first rest, accepted 9 arrivals = first :: rest →
        (accepted 9 arrivals).IsChain (· < ·) → 6 ≤ 2 ^ 31 → Counted last.loop first rest := by
  intro link arrivals last
  have valid : link.Valid := ⟨by decide, by decide, Or.inl rfl⟩
  have known : ∀ i, some i ∈ arrivals → i < 6 := by simp [arrivals]
  exact ⟨by decide, filled_transfer valid (by decide) known true true (fun _ => 1)⟩

/-- Without it that is so where the receiver reads the first word of the frame;
at any other shift each frame but the first is counted as a drop. -/
theorem quick_transfer (valid : link.Valid) (fits : link.receiveWidth ≤ link.sendWidth)
    (known : ∀ i, some i ∈ arrivals → i < count) (doNetcdf doCheck : Bool)
    (fresh : Nat → UInt8) :
    let last := link.transfer doNetcdf doCheck fresh false count maxIter arrivals
    (link.shift = 0 →
      last.loop = Receive.initial.run doNetcdf ((accepted maxIter arrivals).map UInt32.ofNat)) ∧
    (0 < link.shift →
      last.loop.countDrops = ((accepted maxIter arrivals).length - 1) % 2 ^ 64 ∧
        last.loop.countDrop = ((accepted maxIter arrivals).length - 1) % 2 ^ 64) ∧
    ∀ n, accepted maxIter arrivals = List.range (n + 2) → count ≤ 2 ^ 31 →
      (last.loop.testStatus = true ↔ link.shift = 0) := by
  intro last
  have transferred : last = _ := transfer_eq known
  have loop : last.loop =
      Receive.initial.run doNetcdf ((accepted maxIter arrivals).map link.quickIndex) := by
    rw [transferred]
    exact (quick_reads valid fits).loop link.start_sized _
  have numbered (start : link.shift = 0) : last.loop =
      Receive.initial.run doNetcdf ((accepted maxIter arrivals).map UInt32.ofNat) := by
    have values : link.quickIndex = UInt32.ofNat := by
      funext i
      rw [quickIndex, if_pos start]
    rw [loop, values]
  have constant (shifted : 0 < link.shift) :
      last.loop.countDrops = ((accepted maxIter arrivals).length - 1) % 2 ^ 64 ∧
        last.loop.countDrop = ((accepted maxIter arrivals).length - 1) % 2 ^ 64 := by
    have values : link.quickIndex = fun _ => link.restIndex := by
      funext i
      rw [quickIndex, if_neg (Nat.ne_of_gt shifted)]
    rw [loop, values, List.map_const']
    cases (accepted maxIter arrivals).length with
    | zero => exact ⟨rfl, rfl⟩
    | succ number => exact counted_constant doNetcdf link.restIndex number
  refine ⟨numbered, constant, ?_⟩
  intro n taken small
  have all : accepted maxIter arrivals = 0 :: List.range' 1 (n + 1) := by
    rw [taken, List.range_eq_range', List.range'_succ]
  constructor
  · intro pass
    by_contra shifted
    have reached := accepted_known known (n + 1) (by rw [taken]; exact List.self_mem_range_succ)
    have drops := (constant (Nat.pos_of_ne_zero shifted)).1
    rw [taken, List.length_range] at drops
    rw [Receive.testStatus, beq_iff_eq] at pass
    omega
  · intro start
    have chain : (0 :: List.range' 1 (n + 1)).IsChain (· < ·) := by
      rw [← all, taken]
      exact List.pairwise_lt_range.isChain
    rw [numbered start, all]
    apply (counted_of_chain doNetcdf chain _).verdict.mpr
    · rw [List.length_range', ← all, taken, List.range_eq_range']
    · intro i member
      rw [← all] at member
      have bound := accepted_known known i member
      omega

theorem quick_transfer_default :
    let link : Link := ⟨.little, .little, true, 1024, 1024, 16, fun _ => 7, fun _ => 0⟩
    let arrivals := [some 0, some 1, some 2]
    let last := link.transfer true false (fun _ => 1) false 3 3 arrivals
    (link.shift = 0 →
      last.loop = Receive.initial.run true ((accepted 3 arrivals).map UInt32.ofNat)) ∧
    (0 < link.shift →
      last.loop.countDrops = ((accepted 3 arrivals).length - 1) % 2 ^ 64 ∧
        last.loop.countDrop = ((accepted 3 arrivals).length - 1) % 2 ^ 64) ∧
    ∀ n, accepted 3 arrivals = List.range (n + 2) → 3 ≤ 2 ^ 31 →
      (last.loop.testStatus = true ↔ link.shift = 0) := by
  intro link arrivals last
  have valid : link.Valid := ⟨by decide, by decide, Or.inl rfl⟩
  have known : ∀ i, some i ∈ arrivals → i < 3 := by simp [arrivals]
  exact quick_transfer valid (by decide) known true false (fun _ => 1)

end Link

end RockAMali
