import RockAMali.AsioReceive

/-!
The pending operations of the `udp_server`. A completion starts a receive for
the one it ends, a call of the spin loop starts one more.
-/

namespace RockAMali

variable {Tdata : Type*} [Zero Tdata] [DecidableEq Tdata]

namespace UdpServer

/-- `io_service::poll()` for all the receives that complete. -/
def pollAll (server : UdpServer Tdata) : List (List Tdata) → UdpServer Tdata
  | [] => server
  | datagram :: arrivals => (server.poll (some datagram)).pollAll arrivals

def moments (server : UdpServer Tdata) : List (List Tdata) → List (UdpServer Tdata)
  | [] => [server]
  | datagram :: arrivals => server :: (server.poll (some datagram)).moments arrivals

theorem reenter_pending (server : UdpServer Tdata) (rec_buf : List Tdata) :
    (server.reenter rec_buf).1.pending = server.pending + 1 := by
  rw [reenter]
  split <;> rfl

variable {server : UdpServer Tdata}

theorem poll_pending (waiting : 0 < server.pending) (datagram : List Tdata) :
    (server.poll (some datagram)).pending = server.pending := by
  simp only [poll, Nat.ne_of_gt waiting, if_false, reenter_pending]
  omega

theorem pollAll_pending (waiting : 0 < server.pending) (arrivals : List (List Tdata)) :
    (server.pollAll arrivals).pending = server.pending := by
  induction arrivals generalizing server with
  | nil => rfl
  | cons datagram arrivals ih =>
      have same := poll_pending waiting datagram
      rw [pollAll, ih (by omega), same]

theorem moments_pending (waiting : 0 < server.pending) {arrivals : List (List Tdata)} :
    ∀ moment ∈ server.moments arrivals, moment.pending = server.pending := by
  induction arrivals generalizing server with
  | nil => simp [moments]
  | cons datagram arrivals ih =>
      have same := poll_pending waiting datagram
      simp only [moments, List.forall_mem_cons, true_and]
      intro moment member
      rw [ih (by omega) moment member, same]

theorem moments_ne_nil (arrivals : List (List Tdata)) : server.moments arrivals ≠ [] := by
  cases arrivals <;> simp [moments]

end UdpServer

namespace CDataReceiveAsio

def pass (receiver : CDataReceiveAsio Tdata) (arrivals : List (List Tdata)) :
    CDataReceiveAsio Tdata × List Tdata :=
  let called := receiver.s.reenter []
  let s := called.1.pollAll arrivals
  if receiver.compare_vector = called.2 then
    ({ receiver with s }, [])
  else
    (⟨s, called.2⟩, called.2)

theorem pass_toList (receiver : CDataReceiveAsio Tdata) (arrived : Option (List Tdata)) :
    receiver.pass arrived.toList = receiver.spin arrived := by
  cases arrived <;> rfl

def delivered : List (List (List Tdata)) → CDataReceiveAsio Tdata → List (List Tdata)
  | [], _ => []
  | arrivals :: passes, receiver =>
      let (receiver, rec_buf) := receiver.pass arrivals
      if rec_buf = [] then delivered passes receiver else rec_buf :: delivered passes receiver

/-- Polls that complete one receive at most are those of `iteration`. -/
theorem delivered_eq_frames (polls : List (Option (List Tdata))) (receiver : CDataReceiveAsio Tdata) :
    delivered (polls.map Option.toList) receiver = frames polls receiver := by
  induction polls generalizing receiver with
  | nil => rfl
  | cons arrived polls ih => simp only [List.map_cons, delivered, frames, pass_toList, ih]

def servers : List (List (List Tdata)) → CDataReceiveAsio Tdata → List (List (UdpServer Tdata))
  | [], _ => []
  | arrivals :: passes, receiver =>
      (receiver.s.reenter []).1.moments arrivals :: servers passes (receiver.pass arrivals).1

variable {receiver : CDataReceiveAsio Tdata} {passes : List (List (List Tdata))} {size : Nat}

theorem pass_pending (receiver : CDataReceiveAsio Tdata) (arrivals : List (List Tdata)) :
    (receiver.pass arrivals).1.s.pending = receiver.s.pending + 1 := by
  have called := UdpServer.reenter_pending receiver.s []
  have polled : ((receiver.s.reenter []).1.pollAll arrivals).pending = receiver.s.pending + 1 := by
    rw [UdpServer.pollAll_pending (by omega), called]
  simp only [pass]
  split <;> exact polled

theorem servers_length : (servers passes receiver).length = passes.length := by
  induction passes generalizing receiver with
  | nil => rfl
  | cons arrivals passes ih => rw [servers, List.length_cons, ih, List.length_cons]

theorem servers_pending (number : Nat) (bound : number < (servers passes receiver).length) :
    ∀ moment ∈ (servers passes receiver)[number],
      moment.pending = receiver.s.pending + number + 1 := by
  induction passes generalizing receiver number with
  | nil => exact absurd bound (Nat.not_lt_zero number)
  | cons arrivals passes ih =>
      have called := UdpServer.reenter_pending receiver.s []
      cases number with
      | zero =>
          intro moment member
          rw [UdpServer.moments_pending (by omega) moment member, called, Nat.add_zero]
      | succ number =>
          intro moment member
          have inside : number < (servers passes (receiver.pass arrivals).1).length :=
            Nat.lt_of_succ_lt_succ bound
          rw [ih number inside moment member, pass_pending]
          omega

def OnePending (passes : List (List (List Tdata))) (receiver : CDataReceiveAsio Tdata) : Prop :=
  ∀ moments ∈ servers passes receiver, ∀ moment ∈ moments, moment.pending ≤ 1

theorem onePending_iff : OnePending passes (new size) ↔ passes.length ≤ 1 := by
  have length : (servers passes (new size : CDataReceiveAsio Tdata)).length = passes.length :=
    servers_length
  constructor
  · intro one
    by_contra more
    have second : 1 < (servers passes (new size : CDataReceiveAsio Tdata)).length := by omega
    have moments : ∃ arrivals server, (servers passes (new size : CDataReceiveAsio Tdata))[1] =
        UdpServer.moments server arrivals := by
      match passes with
      | _ :: arrivals :: _ => exact ⟨arrivals, _, rfl⟩
    obtain ⟨arrivals, server, same⟩ := moments
    obtain ⟨moment, member⟩ := List.exists_mem_of_ne_nil _ (server.moments_ne_nil arrivals)
    rw [← same] at member
    have pending := servers_pending 1 second moment member
    have bound := one _ (List.getElem_mem second) moment member
    omega
  · intro single moments member moment inside
    obtain ⟨number, bound, rfl⟩ := List.mem_iff_getElem.mp member
    have pending := servers_pending number bound moment inside
    have none : (new size : CDataReceiveAsio Tdata).s.pending = 0 := rfl
    omega

theorem delivered_single (single : passes.length ≤ 1) :
    delivered passes (new size : CDataReceiveAsio Tdata) = [] := by
  match passes with
  | [] => rfl
  | [_] => rfl

/-! A poll that completes several receives leaves the last of their datagrams. -/

theorem pollAll_buffer {server : UdpServer Tdata} {arrivals : List (List Tdata)}
    (entered : server.entered = true) (waiting : 0 < server.pending)
    (whole : ∀ datagram ∈ arrivals, datagram.length = server.buffer_.length) :
    (server.pollAll arrivals).entered = true ∧
      (server.pollAll arrivals).buffer_ = arrivals.getLast?.getD server.buffer_ := by
  induction arrivals generalizing server with
  | nil => exact ⟨entered, rfl⟩
  | cons datagram arrivals ih =>
      have size := whole datagram List.mem_cons_self
      obtain ⟨stillEntered, buffer⟩ := poll_buffer server entered waiting (some datagram)
        (by simpa using size)
      have stillWaiting := UdpServer.poll_pending waiting datagram
      rw [Option.getD_some] at buffer
      have rest := ih stillEntered (by omega) (by
        intro later member
        rw [buffer, whole later (List.mem_cons_of_mem _ member), size])
      rw [buffer] at rest
      rw [UdpServer.pollAll, List.getLast?_cons, Option.getD_some]
      exact rest

variable {previous current : List Tdata} {arrivals : List (List Tdata)}

theorem Stands.pass (stands : receiver.Stands size previous current)
    (whole : ∀ datagram ∈ arrivals, datagram.length = size) :
    (receiver.pass arrivals).1.Stands size current (arrivals.getLast?.getD current) ∧
      (receiver.pass arrivals).2 = if Blank current ∨ current = previous then [] else current := by
  have called := reenter_entered receiver.s stands.entered
  obtain ⟨entered, buffer⟩ : ((receiver.s.reenter []).1.pollAll arrivals).entered = true ∧
      ((receiver.s.reenter []).1.pollAll arrivals).buffer_ =
        arrivals.getLast?.getD (receiver.s.reenter []).1.buffer_ := by
    apply pollAll_buffer
    · rw [called]
      exact stands.entered
    · rw [called]
      exact Nat.succ_pos _
    · rw [called, stands.buffer, stands.currentSize]
      exact whole
  simp only [called, stands.buffer] at entered buffer
  have nextSize : (arrivals.getLast?.getD current).length = size := by
    cases last : arrivals.getLast? with
    | none => exact stands.currentSize
    | some datagram => exact whole datagram (List.mem_of_getLast? last)
  have passed := stands.compare entered (buffer ▸ nextSize)
  rw [buffer] at passed
  rw [CDataReceiveAsio.pass, called, stands.buffer]
  rw [called, stands.buffer] at passed
  exact passed

theorem Stands.delivered_eq {receiver other : CDataReceiveAsio Tdata}
    (stands : receiver.Stands size previous current) (alike : other.Stands size previous current)
    (whole : ∀ arrivals ∈ passes, ∀ datagram ∈ arrivals, datagram.length = size) :
    delivered passes receiver = CDataReceiveAsio.frames (passes.map List.getLast?) other := by
  induction passes generalizing receiver other previous current with
  | nil => rfl
  | cons arrivals passes ih =>
      have here := whole arrivals List.mem_cons_self
      obtain ⟨later, read⟩ := stands.pass here
      obtain ⟨otherLater, otherRead⟩ := alike.spin arrivals.getLast? fun datagram last =>
        here datagram (List.mem_of_getLast? last)
      have rest := ih later otherLater fun others member =>
        whole others (List.mem_cons_of_mem _ member)
      simp only [List.map_cons, delivered, CDataReceiveAsio.frames, read, otherRead, rest]

theorem new_delivered
    (whole : ∀ arrivals ∈ passes, ∀ datagram ∈ arrivals, datagram.length = size) :
    delivered passes (new size) =
      newFrames (List.replicate size 0) (passes.dropLast.filterMap List.getLast?) := by
  have same : delivered passes (new size) =
      frames (passes.map List.getLast?) (new size : CDataReceiveAsio Tdata) := by
    cases passes with
    | nil => rfl
    | cons arrivals passes =>
        have here := whole arrivals List.mem_cons_self
        obtain ⟨stands, read⟩ := new_spin arrivals.getLast? fun datagram last =>
          here datagram (List.mem_of_getLast? last)
        let called : UdpServer Tdata := ⟨true, 1, List.replicate size 0, 0⟩
        obtain ⟨entered, buffer⟩ : (called.pollAll arrivals).entered = true ∧
            (called.pollAll arrivals).buffer_ = arrivals.getLast?.getD called.buffer_ :=
          pollAll_buffer rfl Nat.one_pos (by simpa [called] using here)
        have alike : ((new size : CDataReceiveAsio Tdata).pass arrivals).1.Stands size
            (List.replicate size 0) (arrivals.getLast?.getD (List.replicate size 0)) :=
          ⟨entered, buffer, stands.compared, stands.previousSize, stands.currentSize⟩
        have rest := alike.delivered_eq stands fun others member =>
          whole others (List.mem_cons_of_mem _ member)
        have none : ((new size : CDataReceiveAsio Tdata).pass arrivals).2 = [] := rfl
        simp only [List.map_cons, delivered, frames, read, none, rest, if_true]
  have lastWhole : ∀ datagram, some datagram ∈ passes.map List.getLast? →
      datagram.length = size := by
    intro datagram member
    obtain ⟨arrivals, inside, last⟩ := List.mem_map.mp member
    exact whole arrivals inside datagram (List.mem_of_getLast? last)
  rw [same, new_frames lastWhole, ← List.map_dropLast, received, List.filterMap_map]
  rfl

end CDataReceiveAsio

theorem asio_one_pending (size : Nat) (passes : List (List (List Tdata))) :
    (CDataReceiveAsio.OnePending passes (.new size) ↔ passes.length ≤ 1) ∧
      (CDataReceiveAsio.delivered passes (.new size) ≠ [] →
        ¬CDataReceiveAsio.OnePending passes (.new size)) := by
  refine ⟨CDataReceiveAsio.onePending_iff, ?_⟩
  intro frames one
  exact frames (CDataReceiveAsio.delivered_single (CDataReceiveAsio.onePending_iff.mp one))

theorem asio_two_pending :
    (CDataReceiveAsio.servers [[], [], []] (.new 1 : CDataReceiveAsio Nat)).map
        (fun moments => moments.map UdpServer.pending) = [[1], [2], [3]] ∧
      ¬CDataReceiveAsio.OnePending [[], []] (.new 1 : CDataReceiveAsio Nat) := by
  refine ⟨by decide, ?_⟩
  intro one
  have bound := one _ (List.mem_cons_of_mem _ List.mem_cons_self) _ List.mem_cons_self
  exact absurd bound (by decide)

end RockAMali
