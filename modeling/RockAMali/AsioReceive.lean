import Mathlib.Algebra.Ring.Nat
import Mathlib.Data.List.Chain

/-!
`CDataReceive_ASIO` of `CDataReceive_ASIO.hpp` and its `udp_server`, a coroutine
that the spin loop calls by hand and that the service calls for each datagram.
-/

namespace RockAMali

variable {Tdata : Type*} [Zero Tdata] [DecidableEq Tdata]

structure UdpServer (Tdata : Type*) where
  /-- The coroutine stands at its `yield`. -/
  entered : Bool
  pending : Nat
  buffer_ : List Tdata
  count_ : Nat

namespace UdpServer

/-- `udp_server::operator()` without an error. -/
def reenter (server : UdpServer Tdata) (rec_buf : List Tdata) : UdpServer Tdata × List Tdata :=
  if server.entered then
    let c := server.buffer_.countP (· = 0)
    ({ server with pending := server.pending + 1, count_ := server.count_ + 1 },
      -- a buffer of zeros is taken for no packet
      if c = server.buffer_.length then [] else rec_buf ++ server.buffer_)
  else
    ({ server with entered := true, pending := server.pending + 1 }, rec_buf)

/-- `io_service::poll()` when one receive completes, or none. The handler fills a
vector of its own. -/
def poll (server : UdpServer Tdata) (arrived : Option (List Tdata)) : UdpServer Tdata :=
  match arrived with
  | none => server
  | some datagram =>
      if server.pending = 0 then
        server
      else
        (reenter { server with
          pending := server.pending - 1
          buffer_ := datagram.take server.buffer_.length ++ server.buffer_.drop datagram.length }
          []).1

end UdpServer

structure CDataReceiveAsio (Tdata : Type*) where
  s : UdpServer Tdata
  compare_vector : List Tdata

namespace CDataReceiveAsio

def new (buf_size : Nat) : CDataReceiveAsio Tdata :=
  ⟨⟨false, 0, List.replicate buf_size 0, 0⟩, []⟩

def spin (receiver : CDataReceiveAsio Tdata) (arrived : Option (List Tdata)) :
    CDataReceiveAsio Tdata × List Tdata :=
  -- a pass starts with an empty rec_buf, and reads the buffer before the poll
  let called := receiver.s.reenter []
  let s := called.1.poll arrived
  if receiver.compare_vector = called.2 then
    ({ receiver with s }, [])
  else
    (⟨s, called.2⟩, called.2)

/-- The spin loop of `iteration`, for as many polls as there are. -/
def iteration : List (Option (List Tdata)) → CDataReceiveAsio Tdata →
    Option (List Tdata × CDataReceiveAsio Tdata × List (Option (List Tdata)))
  | [], _ => none
  | arrived :: polls, receiver =>
      let (receiver, rec_buf) := receiver.spin arrived
      if rec_buf = [] then iteration polls receiver else some (rec_buf, receiver, polls)

def iterations : Nat → CDataReceiveAsio Tdata → List (Option (List Tdata)) → List (List Tdata)
  | 0, _, _ => []
  | calls + 1, receiver, polls =>
      match iteration polls receiver with
      | none => []
      | some (frame, receiver, rest) => frame :: iterations calls receiver rest

end CDataReceiveAsio

def received (polls : List (Option (List Tdata))) : List (List Tdata) := polls.filterMap id

omit [Zero Tdata] [DecidableEq Tdata] in
@[simp] theorem received_some (datagram : List Tdata) (polls : List (Option (List Tdata))) :
    received (some datagram :: polls) = datagram :: received polls := rfl

omit [Zero Tdata] [DecidableEq Tdata] in
@[simp] theorem received_none (polls : List (Option (List Tdata))) :
    received (none :: polls) = received polls := rfl

omit [Zero Tdata] [DecidableEq Tdata] in
theorem mem_received {datagram : List Tdata} {polls : List (Option (List Tdata))} :
    datagram ∈ received polls ↔ some datagram ∈ polls := by
  simp [received]

def Blank (frame : List Tdata) : Prop := ∀ value ∈ frame, value = 0

instance (frame : List Tdata) : Decidable (Blank frame) :=
  inferInstanceAs (Decidable (∀ value ∈ frame, value = 0))

def newFrames (previous : List Tdata) : List (List Tdata) → List (List Tdata)
  | [] => []
  | frame :: frames =>
      if Blank frame ∨ frame = previous then
        newFrames frame frames
      else
        frame :: newFrames frame frames

theorem newFrames_sublist (previous : List Tdata) (frames : List (List Tdata)) :
    (newFrames previous frames).Sublist frames := by
  induction frames generalizing previous with
  | nil => exact List.Sublist.refl []
  | cons frame frames ih =>
      rw [newFrames]
      split
      · exact (ih frame).cons frame
      · exact (ih frame).cons_cons frame

theorem newFrames_eq_self {previous : List Tdata} {frames : List (List Tdata)}
    (shown : ∀ frame ∈ frames, ¬Blank frame)
    (changing : (previous :: frames).IsChain (· ≠ ·)) : newFrames previous frames = frames := by
  induction frames generalizing previous with
  | nil => rfl
  | cons frame frames ih =>
      have pair := List.isChain_cons_cons.mp changing
      have fresh : ¬(Blank frame ∨ frame = previous) := by
        rintro (blank | same)
        · exact shown frame List.mem_cons_self blank
        · exact pair.1 same.symm
      rw [newFrames, if_neg fresh, ih (fun later mem => shown later (List.mem_cons_of_mem _ mem))
        pair.2]

def reading (frame : List Tdata) : List Tdata := if Blank frame then [] else frame

theorem reading_blank {frame : List Tdata} (blank : Blank frame) : reading frame = [] :=
  if_pos blank

theorem reading_shown {frame : List Tdata} (shown : ¬Blank frame) : reading frame = frame :=
  if_neg shown

theorem reading_inj {frame other : List Tdata} (size : frame.length = other.length) :
    reading frame = reading other ↔ frame = other := by
  constructor
  · intro equal
    by_cases blank : Blank frame
    · by_cases otherBlank : Blank other
      · rw [List.eq_replicate_of_mem blank, List.eq_replicate_of_mem otherBlank, size]
      · rw [reading_blank blank, reading_shown otherBlank] at equal
        rw [← equal] at size ⊢
        exact List.eq_nil_of_length_eq_zero size
    · by_cases otherBlank : Blank other
      · rw [reading_shown blank, reading_blank otherBlank] at equal
        rw [equal] at size ⊢
        exact (List.eq_nil_of_length_eq_zero size.symm).symm
      · rw [reading_shown blank, reading_shown otherBlank] at equal
        exact equal
  · intro equal
    rw [equal]

theorem countP_eq_length_iff (frame : List Tdata) :
    frame.countP (· = 0) = frame.length ↔ Blank frame := by
  rw [List.countP_eq_length]
  simp [Blank]

namespace CDataReceiveAsio

variable {receiver : CDataReceiveAsio Tdata} {size calls : Nat} {previous current : List Tdata}
  {polls : List (Option (List Tdata))}

structure Stands (receiver : CDataReceiveAsio Tdata) (size : Nat)
    (previous current : List Tdata) : Prop where
  entered : receiver.s.entered = true
  buffer : receiver.s.buffer_ = current
  compared : receiver.compare_vector = reading previous
  previousSize : previous.length = size
  currentSize : current.length = size

theorem reenter_entered (server : UdpServer Tdata) (entered : server.entered = true) :
    server.reenter [] = ({ server with pending := server.pending + 1, count_ := server.count_ + 1 },
      reading server.buffer_) := by
  rw [UdpServer.reenter, if_pos entered]
  simp only [countP_eq_length_iff, List.nil_append]
  rfl

theorem poll_buffer (server : UdpServer Tdata) (entered : server.entered = true)
    (waiting : 0 < server.pending) (arrived : Option (List Tdata))
    (whole : ∀ datagram ∈ arrived, datagram.length = server.buffer_.length) :
    (server.poll arrived).entered = true ∧
      (server.poll arrived).buffer_ = arrived.getD server.buffer_ := by
  cases arrived with
  | none => exact ⟨entered, rfl⟩
  | some datagram =>
      have length := whole datagram rfl
      have filled : datagram.take server.buffer_.length ++ server.buffer_.drop datagram.length =
          datagram := by
        rw [← length, List.take_length, length, List.drop_length, List.append_nil]
      have resumed := reenter_entered
        { server with pending := server.pending - 1, buffer_ := datagram } entered
      simp only [UdpServer.poll, if_neg (Nat.ne_of_gt waiting), filled, resumed]
      exact ⟨entered, rfl⟩

theorem Stands.compare (stands : receiver.Stands size previous current) {s : UdpServer Tdata}
    (entered : s.entered = true) (nextSize : s.buffer_.length = size) :
    let called := receiver.s.reenter []
    let passed := if receiver.compare_vector = called.2 then ({ receiver with s }, [])
      else (⟨s, called.2⟩, called.2)
    passed.1.Stands size current s.buffer_ ∧
      passed.2 = if Blank current ∨ current = previous then [] else current := by
  obtain ⟨receiverEntered, buffer, compared, previousSize, currentSize⟩ := stands
  have same : reading previous = reading current ↔ previous = current :=
    reading_inj (previousSize.trans currentSize.symm)
  simp only [reenter_entered receiver.s receiverEntered, compared, buffer]
  by_cases old : previous = current
  · rw [if_pos (same.mpr old), if_pos (Or.inr old.symm)]
    exact ⟨⟨entered, rfl, same.mpr old, currentSize, nextSize⟩, rfl⟩
  · rw [if_neg (fun equal => old (same.mp equal))]
    refine ⟨⟨entered, rfl, rfl, currentSize, nextSize⟩, ?_⟩
    by_cases blank : Blank current
    · rw [reading_blank blank, if_pos (Or.inl blank)]
    · rw [reading_shown blank, if_neg]
      rintro (empty | equal)
      · exact blank empty
      · exact old equal.symm

theorem Stands.spin (stands : receiver.Stands size previous current)
    (arrived : Option (List Tdata)) (whole : ∀ datagram ∈ arrived, datagram.length = size) :
    (receiver.spin arrived).1.Stands size current (arrived.getD current) ∧
      (receiver.spin arrived).2 = if Blank current ∨ current = previous then [] else current := by
  have called := reenter_entered receiver.s stands.entered
  obtain ⟨entered, buffer⟩ := poll_buffer (receiver.s.reenter []).1
    (by rw [called]; exact stands.entered) (by rw [called]; exact Nat.succ_pos _) arrived
    (by rw [called]; simpa [stands.buffer, stands.currentSize] using whole)
  simp only [called, stands.buffer] at entered buffer
  have nextSize : (arrived.getD current).length = size := by
    cases arrived with
    | none => exact stands.currentSize
    | some datagram => exact whole datagram rfl
  have passed := stands.compare entered (buffer ▸ nextSize)
  rw [buffer] at passed
  rw [CDataReceiveAsio.spin, called, stands.buffer]
  rw [called, stands.buffer] at passed
  exact passed

omit [DecidableEq Tdata] in
theorem blank_replicate (size : Nat) : Blank (List.replicate size (0 : Tdata)) :=
  fun _ mem => List.eq_of_mem_replicate mem

theorem new_spin (arrived : Option (List Tdata))
    (whole : ∀ datagram ∈ arrived, datagram.length = size) :
    ((new size : CDataReceiveAsio Tdata).spin arrived).1.Stands size (List.replicate size 0)
        (arrived.getD (List.replicate size 0)) ∧
      ((new size : CDataReceiveAsio Tdata).spin arrived).2 = [] := by
  have polled := poll_buffer ⟨true, 1, List.replicate size (0 : Tdata), 0⟩ rfl Nat.one_pos arrived
    (by simpa using whole)
  have nextSize : (arrived.getD (List.replicate size 0)).length = size := by
    cases arrived with
    | none => exact List.length_replicate
    | some datagram => exact whole datagram rfl
  refine ⟨⟨polled.1, polled.2, ?_, List.length_replicate, nextSize⟩, rfl⟩
  exact (reading_blank (blank_replicate size)).symm

def frames : List (Option (List Tdata)) → CDataReceiveAsio Tdata → List (List Tdata)
  | [], _ => []
  | arrived :: polls, receiver =>
      let (receiver, rec_buf) := receiver.spin arrived
      if rec_buf = [] then frames polls receiver else rec_buf :: frames polls receiver

theorem iteration_frames (polls : List (Option (List Tdata))) (receiver : CDataReceiveAsio Tdata) :
    frames polls receiver =
      match iteration polls receiver with
      | none => []
      | some (frame, receiver, rest) => frame :: frames rest receiver := by
  induction polls generalizing receiver with
  | nil => rfl
  | cons arrived polls ih =>
      rw [frames, iteration]
      by_cases waits : (receiver.spin arrived).2 = []
      · simp only [if_pos waits]
        exact ih _
      · simp only [if_neg waits]

theorem iterations_eq_take (calls : Nat) (receiver : CDataReceiveAsio Tdata)
    (polls : List (Option (List Tdata))) :
    iterations calls receiver polls = (frames polls receiver).take calls := by
  induction calls generalizing receiver polls with
  | zero => rfl
  | succ calls ih =>
      rw [iterations, iteration_frames polls receiver]
      cases iteration polls receiver with
      | none => rfl
      | some called => simp only [List.take_succ_cons, ih]

theorem newFrames_getD (arrived : Option (List Tdata)) (current : List Tdata)
    (polls : List (Option (List Tdata))) :
    newFrames current (received (some (arrived.getD current) :: polls).dropLast) =
      newFrames current (received (arrived :: polls).dropLast) := by
  cases arrived with
  | some datagram => rfl
  | none =>
      cases polls with
      | nil => rfl
      | cons next polls =>
          rw [List.dropLast_cons_cons, List.dropLast_cons_cons, received_none, received_some,
            Option.getD_none, newFrames, if_pos (Or.inr rfl)]

theorem Stands.frames (stands : receiver.Stands size previous current)
    (whole : ∀ datagram, some datagram ∈ polls → datagram.length = size) :
    frames polls receiver =
      newFrames previous (received (some current :: polls).dropLast) := by
  induction polls generalizing receiver previous current with
  | nil => rfl
  | cons arrived polls ih =>
      obtain ⟨later, read⟩ := stands.spin arrived fun datagram mem =>
        whole datagram (by rw [Option.mem_def.mp mem]; exact List.mem_cons_self)
      have rest := ih later fun datagram mem => whole datagram (List.mem_cons_of_mem _ mem)
      rw [newFrames_getD] at rest
      simp only [CDataReceiveAsio.frames, rest, read]
      rw [List.dropLast_cons_cons, received_some, newFrames]
      by_cases old : Blank current ∨ current = previous
      · rw [if_pos old, if_pos old, if_pos rfl]
      · rw [if_neg old, if_neg old, if_neg]
        intro empty
        apply old
        left
        rw [empty]
        exact fun value mem => absurd mem List.not_mem_nil

theorem new_frames (whole : ∀ datagram, some datagram ∈ polls → datagram.length = size) :
    CDataReceiveAsio.frames polls (new size) =
      newFrames (List.replicate size 0) (received polls.dropLast) := by
  cases polls with
  | nil => rfl
  | cons arrived polls =>
      obtain ⟨stands, read⟩ := new_spin arrived fun datagram mem =>
        whole datagram (by rw [Option.mem_def.mp mem]; exact List.mem_cons_self)
      have rest := stands.frames fun datagram mem => whole datagram (List.mem_cons_of_mem _ mem)
      rw [newFrames_getD] at rest
      simp only [CDataReceiveAsio.frames, read, rest, if_true]

end CDataReceiveAsio

/-- The calls copy the datagrams that are read in time, less the blank ones and
those that repeat the one before. -/
theorem asio_delivery {size : Nat} {polls : List (Option (List Tdata))}
    (whole : ∀ datagram ∈ received polls, datagram.length = size) (calls : Nat) :
    CDataReceiveAsio.iterations calls (.new size) polls =
        (newFrames (List.replicate size 0) (received polls.dropLast)).take calls ∧
      (newFrames (List.replicate size 0) (received polls.dropLast)).Sublist (received polls) ∧
      ((∀ datagram ∈ received polls, ¬Blank datagram) →
        (received polls).IsChain (· ≠ ·) →
        CDataReceiveAsio.iterations calls (.new size) polls =
          (received polls.dropLast).take calls) := by
  have frames : CDataReceiveAsio.iterations calls (.new size) polls =
      (newFrames (List.replicate size 0) (received polls.dropLast)).take calls := by
    rw [CDataReceiveAsio.iterations_eq_take, CDataReceiveAsio.new_frames fun datagram mem =>
      whole datagram (mem_received.mpr mem)]
  have read : (received polls.dropLast).Sublist (received polls) :=
    (List.dropLast_sublist polls).filterMap id
  refine ⟨frames, (newFrames_sublist _ _).trans read, ?_⟩
  intro shown changing
  have early : received polls.dropLast <+: received polls :=
    (List.dropLast_prefix polls).filterMap id
  have chained : (received polls.dropLast).IsChain (· ≠ ·) :=
    List.IsChain.prefix changing early
  have start : (List.replicate size 0 :: received polls.dropLast).IsChain (· ≠ ·) := by
    apply chained.cons
    intro datagram first same
    apply shown datagram (read.subset (List.mem_of_mem_head? first))
    rw [← same]
    exact CDataReceiveAsio.blank_replicate size
  rw [frames, newFrames_eq_self (fun datagram mem => shown datagram (read.subset mem)) start]

theorem asio_delivery_two_frames :
    CDataReceiveAsio.iterations 2 (.new 1) [some [3], none, some [5], none] = [[3], [5]] := by
  have whole : ∀ datagram ∈ received [some [3], none, some [5], none], datagram.length = 1 := by
    decide
  exact (asio_delivery whole 2).2.2 (by decide) (by decide)

theorem asio_delivery_equal_frames :
    CDataReceiveAsio.iterations 2 (.new 1) [some [3], none, some [3], none, none] ≠
      received [some [3], none, some [3], none, none] := by
  decide

end RockAMali
