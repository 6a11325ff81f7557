import RockAMali.Liveness
import RockAMali.Transmission

/-!
A transmission where no two datagrams come between two polls of the receiver ends,
with every frame stored, under each fair scheduler of the threads of both programs
and of the network.
-/

namespace RockAMali

open Relay

namespace Session

inductive Party
  | sender (id : Nat)
  | network
  | receiver (id : Nat)

variable {Tdata β : Type*} [Zero Tdata] [DecidableEq Tdata] (session : Session Tdata β)
  (state : Transmission Tdata β)

def Member : Party → Prop
  | .sender id => id < session.send.threads
  | .network => True
  | .receiver id => id < session.receive.threads

def Brings : Prop :=
  state.delivered.length < state.sender.data.sent.length ∧ state.taken = state.delivered.length

instance : Decidable (Brings state) := inferInstanceAs (Decidable (_ ∧ _))

/-- The turn of a party. A poll completes a receive for each datagram that waits. -/
def turn : Party → Transmission Tdata β
  | .sender id => session.step state (.sender id)
  | .network =>
      if Brings state then session.step state (.network state.delivered.length) else state
  | .receiver id => session.step state (.receiver id (waiting state).length)

def Finished : Prop :=
  session.send.Finished state.sender ∧ session.receive.Finished state.receiver

def remaining : Nat :=
  session.send.remaining state.sender + session.receive.remaining state.receiver +
    (session.sender.count - state.delivered.length) + (session.sender.count - state.taken)

variable {session} {state}

theorem turn_reachable (reachable : session.Reachable state .paced) {party : Party}
    (member : session.Member party) : session.Reachable (session.turn state party) .paced := by
  cases party with
  | sender id => exact .step reachable ⟨.sender id, member, rfl⟩
  | network =>
      simp only [turn]
      split
      · rename_i brings
        exact .step reachable ⟨.network _, ⟨brings.1, brings.2, rfl⟩, rfl⟩
      · exact reachable
  | receiver id => exact .step reachable ⟨.receiver id _, member, rfl⟩

theorem Invariant.spin_cases (invariant : session.Invariant state .paced)
    (valid : session.Valid) (spins : session.Spins state) :
    let spun := session.spin state (waiting state).length
    session.remaining spun < session.remaining state ∨
      spun = { state with asio := spun.asio } ∧ state.taken = state.delivered.length ∧
        (state.asio.pass []).2 = [] := by
  intro spun
  have few := invariant.delivered_le valid
  have length := invariant.waiting_length valid
  obtain ⟨polls, passes, _⟩ := invariant.passes
  obtain ⟨roster⟩ := valid.exists_roster
  have taken : spun.taken = state.taken + min (waiting state).length (waiting state).length :=
    spin_taken _
  rw [Nat.min_self, length] at taken
  have receiverStep : spun.receiver = state.receiver ∧ (state.asio.pass (waiting state)).2 = [] ∨
      session.receive.remaining spun.receiver < session.receive.remaining state.receiver := by
    by_cases vain : (state.asio.pass (waiting state)).2 = []
    · left
      refine ⟨?_, vain⟩
      simp only [spun, Session.spin, List.take_length, if_pos vain]
    · right
      have stepped : spun.receiver = session.receive.step
          (fun _ => (state.asio.pass (waiting state)).2) session.kernel state.receiver 0 := by
        simp only [spun, Session.spin, List.take_length, if_neg vain]
      rw [stepped]
      apply Program.remaining_step (passes.invariant roster) valid.threads spins.2.1
      rintro ⟨_, _, phase, _⟩
      rw [spins.2.2] at phase
      cases phase
  have sender : spun.sender = state.sender := rfl
  have delivered : spun.delivered = state.delivered := rfl
  have before := invariant.taken
  rcases receiverStep with ⟨same, vain⟩ | nearer
  · by_cases behind : state.taken < state.delivered.length
    · left
      simp only [remaining, sender, delivered, same, taken]
      omega
    · right
      have all : state.taken = state.delivered.length := by omega
      have none : waiting state = [] := List.eq_nil_of_length_eq_zero (by omega)
      have takenSame : spun.taken = state.taken := by omega
      rw [none] at vain
      refine ⟨?_, all, vain⟩
      rw [Transmission.mk.injEq]
      exact ⟨sender, delivered, takenSame, rfl, same⟩
  · left
    simp only [remaining, sender, delivered, taken]
    omega

theorem Invariant.sender_nearer (invariant : session.Invariant state .paced)
    (valid : session.Valid) {id : Nat} (bound : id < session.send.threads)
    (running : session.send.Running state.sender id)
    (free : ¬session.send.Waits state.sender id) :
    session.remaining (session.turn state (.sender id)) < session.remaining state := by
  let roster := sendRoster _ session.sender.count _ valid.senderBuffer valid.senderThreads
  have held := roster.invariant_of_reachable invariant.sender
  have nearer : session.send.remaining
        (session.send.step session.frame (fun _ => ()) state.sender id) <
      session.send.remaining state.sender := Program.remaining_step held bound running free
  simp only [remaining, turn, Session.step]
  omega

theorem Invariant.network_nearer (invariant : session.Invariant state .paced)
    (valid : session.Valid) (brings : Brings state) :
    session.remaining (session.turn state .network) < session.remaining state := by
  have sent := (send_sends valid.senderBuffer valid.senderThreads invariant.sender).length_le
  have more := brings.1
  rw [List.length_map, List.length_range] at sent
  simp only [remaining, turn, if_pos brings, Session.step, List.length_append,
    List.length_singleton]
  omega

theorem Invariant.receiver_nearer (invariant : session.Invariant state .paced)
    (valid : session.Valid) {id : Nat} (bound : id < session.receive.threads)
    (elsewhere : ¬(id = 0 ∧ session.Spins state))
    (running : session.receive.Running state.receiver id)
    (free : ¬session.receive.Waits state.receiver id) :
    session.remaining (session.turn state (.receiver id)) < session.remaining state := by
  obtain ⟨polls, passes, _⟩ := invariant.passes
  obtain ⟨roster⟩ := valid.exists_roster
  have nearer : session.receive.remaining
        (session.receive.step (fun _ => []) session.kernel state.receiver id) <
      session.receive.remaining state.receiver :=
    Program.remaining_step (passes.invariant roster) bound running free
  simp only [remaining, turn, Session.step, if_neg elsewhere]
  omega

theorem execution_reachable {schedule : Nat → Party} {initial : Transmission Tdata β}
    (first : session.Initial initial) (fair : Transition.Fair session.Member schedule)
    (time : Nat) :
    session.Reachable (Transition.execution session.turn schedule initial time) .paced := by
  induction time with
  | zero => exact .start first
  | succ time ih => exact turn_reachable ih (fair.turns time)

theorem Invariant.turn_cases (invariant : session.Invariant state .paced)
    (valid : session.Valid) {party : Party} (member : session.Member party) :
    session.remaining (session.turn state party) < session.remaining state ∨
      ∃ asio, session.turn state party = { state with asio } ∧
        (party ≠ .receiver 0 → asio = state.asio) := by
  cases party with
  | sender id =>
      let roster := sendRoster _ session.sender.count _ valid.senderBuffer valid.senderThreads
      have held := roster.invariant_of_reachable invariant.sender
      by_cases idle : ¬session.send.Running state.sender id ∨ session.send.Waits state.sender id
      · right
        refine ⟨state.asio, ?_, fun _ => rfl⟩
        simp only [turn, Session.step, Program.step_idle held.exited idle]
      · push Not at idle
        exact Or.inl (invariant.sender_nearer valid member idle.1 idle.2)
  | network =>
      by_cases brings : Brings state
      · exact Or.inl (invariant.network_nearer valid brings)
      · exact Or.inr ⟨state.asio, if_neg brings, fun _ => rfl⟩
  | receiver id =>
      by_cases spinning : id = 0 ∧ session.Spins state
      · have spun : session.turn state (.receiver id) =
            session.spin state (waiting state).length := if_pos spinning
        rw [spun]
        rcases invariant.spin_cases valid spinning.2 with nearer | ⟨same, _⟩
        · exact Or.inl nearer
        · exact Or.inr ⟨_, same, fun other => absurd (congrArg Party.receiver spinning.1) other⟩
      · by_cases idle : ¬session.receive.Running state.receiver id ∨
            session.receive.Waits state.receiver id
        · right
          obtain ⟨polls, passes, _⟩ := invariant.passes
          obtain ⟨roster⟩ := valid.exists_roster
          refine ⟨state.asio, ?_, fun _ => rfl⟩
          simp only [turn, Session.step, if_neg spinning,
            Program.step_idle (passes.invariant roster).exited idle]
        · push Not at idle
          exact Or.inl (invariant.receiver_nearer valid member spinning idle.1 idle.2)

theorem Invariant.spin_vain (invariant : session.Invariant state .paced)
    (valid : session.Valid) (distinct : session.Distinct) (spins : session.Spins state)
    (all : state.taken = state.delivered.length) (vain : (state.asio.pass []).2 = []) :
    (state.receiver.locals 0).index.i = state.delivered.length := by
  have history : state.delivered = List.range state.delivered.length := invariant.history
  obtain ⟨polls, passes, few⟩ := invariant.passes
  obtain ⟨roster⟩ := valid.exists_roster
  obtain ⟨_, _, label, _⟩ := passes.spinning valid.threads (passes.invariant roster) spins
  have once := passes.spin valid spins (invariant.waiting_eq valid) 0
  rw [List.take_zero] at once
  have readAll : session.read (polls ++ [[]]) = session.shownFrames state.delivered := by
    rw [once.read_eq valid, List.dropLast_concat, filterMap_getLast_flatten (few rfl),
      passes.taken, all, List.take_length]
    rfl
  have readSame : session.read (polls ++ [[]]) = session.read polls := by
    rw [read, CDataReceiveAsio.delivered_append, ← passes.asio,
      CDataReceiveAsio.delivered_vain vain, List.append_nil]
    rfl
  rw [label, ← readSame, readAll, history, distinct.shownFrames (invariant.delivered_le valid),
    List.length_map, List.length_range]

omit [Zero Tdata] [DecidableEq Tdata] in
theorem Valid.exists_order (valid : session.Valid)
    (divides : session.receiver.tn ≠ 2 →
      session.receiver.tn - 3 ∣ session.receiver.nbuffer) :
    ∃ (roster : Roster session.receive) (turns : Nat) (turn : Nat → Nat → Nat),
      roster.Order turns turn := by
  have positive := valid.receiverBuffer
  simp only [receive]
  rcases valid.receiverThreads with alone | ⟨stride, stridePositive, fits, threads⟩
  · rw [alone]
    exact ⟨receiveOnlyRoster _ _ positive, _, _, receiveOnly_order positive⟩
  · have processing := divides (by omega)
    rw [threads, Nat.add_sub_cancel] at processing
    rw [threads]
    exact ⟨receiveRoster _ _ _ stridePositive fits, _, _,
      receive_order stridePositive fits processing⟩

theorem Invariant.sent_all (invariant : session.Invariant state .paced)
    (valid : session.Valid) (finished : session.send.Finished state.sender) :
    state.sender.data.sent.length = session.sender.count := by
  rw [send_finished valid.senderBuffer valid.senderThreads invariant.sender finished,
    List.length_map, List.length_range]

theorem Invariant.progress (invariant : session.Invariant state .paced)
    (valid : session.Valid) (distinct : session.Distinct)
    (divides : session.receiver.tn ≠ 2 → session.receiver.tn - 3 ∣ session.receiver.nbuffer)
    (enough : session.receiver.count ≤ session.sender.count) :
    session.Finished state ∨
      ∃ party, session.Member party ∧
        session.remaining (session.turn state party) < session.remaining state := by
  by_cases sending : session.send.Finished state.sender
  · by_cases receiving : session.receive.Finished state.receiver
    · exact Or.inl ⟨sending, receiving⟩
    · right
      obtain ⟨polls, passes, _⟩ := invariant.passes
      obtain ⟨roster, _, _, order⟩ := valid.exists_order divides
      have reachable := passes.reachable (fun i => (session.read polls)[i]?.getD []) (by
        intro i image found
        simp only [found, Option.getD_some])
      obtain ⟨id, bound, running, free⟩ :=
        Program.exists_free (order.not_stuck reachable) receiving
      by_cases spinning : id = 0 ∧ session.Spins state
      · have spun : session.turn state (.receiver id) =
            session.spin state (waiting state).length := if_pos spinning
        rcases invariant.spin_cases valid spinning.2 with nearer | ⟨_, all, vain⟩
        · exact ⟨.receiver id, bound, spun ▸ nearer⟩
        · by_cases more : state.delivered.length < state.sender.data.sent.length
          · exact ⟨.network, trivial, invariant.network_nearer valid ⟨more, all⟩⟩
          · -- all frames have been read, more than the receiver asks for
            exfalso
            have label := invariant.spin_vain valid distinct spinning.2 all vain
            have sent := invariant.sent_all valid sending
            obtain ⟨hold, current⟩ := Option.isSome_iff_exists.mp spinning.2.2.1
            have within : (state.receiver.locals 0).index.i < session.receiver.count :=
              (Program.current_some current).1
            omega
      · exact ⟨.receiver id, bound, invariant.receiver_nearer valid bound spinning running free⟩
  · right
    obtain ⟨id, bound, running, free⟩ := Program.exists_free
      ((send_order valid.senderBuffer valid.senderThreads).not_stuck invariant.sender) sending
    exact ⟨.sender id, bound, invariant.sender_nearer valid bound running free⟩

theorem turn_asio {party : Party} (other : party ≠ .receiver 0)
    (asio : CDataReceiveAsio Tdata) :
    session.remaining (session.turn { state with asio } party) =
      session.remaining (session.turn state party) := by
  cases party with
  | sender id => rfl
  | network =>
      by_cases brings : Brings state
      · have same : Brings { state with asio } := brings
        simp only [turn, if_pos brings, if_pos same]
        rfl
      · have same : ¬Brings { state with asio } := brings
        simp only [turn, if_neg brings, if_neg same]
        rfl
  | receiver id =>
      have elsewhere : id ≠ 0 := fun same => other (congrArg Party.receiver same)
      simp only [turn, Session.step, elsewhere, false_and, if_false, remaining]

theorem Invariant.turn_kept (invariant : session.Invariant state .paced)
    (valid : session.Valid) {party other : Party} (member : session.Member other)
    (helps : session.remaining (session.turn state party) < session.remaining state) :
    session.remaining (session.turn state other) < session.remaining state ∨
      session.remaining (session.turn state other) = session.remaining state ∧
        session.remaining (session.turn (session.turn state other) party) <
          session.remaining (session.turn state other) := by
  rcases invariant.turn_cases valid member with nearer | ⟨asio, same, unchanged⟩
  · exact Or.inl nearer
  · by_cases mine : party = .receiver 0
    · by_cases equal : other = .receiver 0
      · rw [equal, ← mine]
        exact Or.inl helps
      · rw [same, unchanged equal]
        exact Or.inr ⟨rfl, helps⟩
    · right
      rw [same, turn_asio mine]
      exact ⟨rfl, helps⟩

theorem Invariant.finished_turn (invariant : session.Invariant state .paced)
    (valid : session.Valid) (finished : session.Finished state) {party : Party}
    (member : session.Member party) :
    (session.turn state party).sender = state.sender ∧
      (session.turn state party).receiver = state.receiver := by
  obtain ⟨sending, receiving⟩ := finished
  cases party with
  | sender id =>
      let roster := sendRoster _ session.sender.count _ valid.senderBuffer valid.senderThreads
      have exited := (roster.invariant_of_reachable invariant.sender).exited
      exact ⟨Program.step_idle exited (Or.inl (sending id member)), rfl⟩
  | network =>
      simp only [turn]
      split <;> exact ⟨rfl, rfl⟩
  | receiver id =>
      obtain ⟨polls, passes, _⟩ := invariant.passes
      obtain ⟨roster⟩ := valid.exists_roster
      have elsewhere : ¬(id = 0 ∧ session.Spins state) := by
        rintro ⟨_, _, running, _⟩
        exact receiving 0 valid.threads running
      simp only [turn, Session.step, if_neg elsewhere]
      exact ⟨trivial, Program.step_idle (passes.invariant roster).exited
        (Or.inl (receiving id member))⟩

theorem Invariant.stored_length (invariant : session.Invariant state .paced)
    (valid : session.Valid) (finished : session.receive.Finished state.receiver) :
    state.receiver.data.stored.length = session.receiver.count ∧
      (session.receiver.tn ≠ 2 →
        state.receiver.data.storedR.length = session.receiver.count) := by
  obtain ⟨polls, passes, _⟩ := invariant.passes
  have reachable := passes.reachable (fun i => (session.read polls)[i]?.getD []) (by
    intro i image found
    simp only [found, Option.getD_some])
  simp only [Session.receive] at reachable finished
  rcases valid.receiverThreads with alone | ⟨stride, positive, fits, threads⟩
  · rw [alone] at reachable finished
    rw [receiveOnly_finished valid.receiverBuffer reachable finished, List.length_map,
      List.length_range]
    exact ⟨rfl, fun more => absurd alone more⟩
  · rw [threads] at reachable finished
    obtain ⟨stored, storedR⟩ := receive_finished positive fits reachable finished
    rw [stored, storedR, List.length_map, List.length_map, List.length_range]
    exact ⟨rfl, fun _ => rfl⟩

variable (session) in
def party (number : Nat) : Party :=
  if number < session.send.threads then .sender number
  else if number = session.send.threads then .network
  else .receiver (number - session.send.threads - 1)

omit [Zero Tdata] [DecidableEq Tdata] in
theorem fair_parties : Transition.Fair session.Member (session.party ∘
    (· % (session.send.threads + 1 + session.receive.threads))) := by
  apply (Transition.fair_roundRobin (Nat.lt_of_lt_of_le (Nat.succ_pos session.send.threads)
    (Nat.le_add_right _ session.receive.threads))).map
  · intro number bound
    simp only [party]
    split
    · assumption
    · split
      · trivial
      · show number - session.send.threads - 1 < session.receive.threads
        omega
  · rintro (id | _ | id) member
    · have bound : id < session.send.threads := member
      exact ⟨id, by omega, if_pos bound⟩
    · refine ⟨session.send.threads, by omega, ?_⟩
      rw [party, if_neg (Nat.lt_irrefl _), if_pos rfl]
    · have bound : id < session.receive.threads := member
      refine ⟨session.send.threads + 1 + id, by omega, ?_⟩
      rw [party, if_neg (by omega), if_neg (by omega)]
      congr 1
      omega

variable (session) in
def Completes (schedule : Nat → Party) (initial : Transmission Tdata β) : Prop :=
  ∃ time, ∀ later, time ≤ later →
    let last := Transition.execution session.turn schedule initial later
    session.Finished last ∧
      last.receiver.data.stored = (List.range session.receiver.count).map session.frame ∧
      (session.receiver.tn ≠ 2 → last.receiver.data.storedR =
        (List.range session.receiver.count).map fun i => session.kernel (session.frame i))

theorem Invariant.complete (invariant : session.Invariant state .paced)
    (valid : session.Valid) (distinct : session.Distinct) (finished : session.Finished state) :
    session.receiver.count ≤ session.sender.count ∧
      state.receiver.data.stored = (List.range session.receiver.count).map session.frame ∧
      (session.receiver.tn ≠ 2 → state.receiver.data.storedR =
        (List.range session.receiver.count).map fun i => session.kernel (session.frame i)) := by
  obtain ⟨stored, storedR⟩ := paced_stores valid distinct invariant
  obtain ⟨length, lengthR⟩ := invariant.stored_length valid finished.2
  have enough := stored.length_le
  rw [length, List.length_map, List.length_range] at enough
  refine ⟨enough, ?_, ?_⟩
  · rw [List.prefix_iff_eq_take.mp stored, length, ← List.map_take, List.take_range,
      Nat.min_eq_left enough]
  · intro processing
    rw [List.prefix_iff_eq_take.mp (storedR processing), lengthR processing, ← List.map_take,
      List.take_range, Nat.min_eq_left enough]

/-- Where the next datagram comes after a poll has taken the last, and the frames can
be told apart, the receiver gets and stores as many frames as it asks for, exactly
when the sender makes as many. -/
theorem paced_completes_iff (valid : session.Valid) (distinct : session.Distinct)
    (divides : session.receiver.tn ≠ 2 →
      session.receiver.tn - 3 ∣ session.receiver.nbuffer) :
    session.receiver.count ≤ session.sender.count ↔ ∀ initial schedule,
      session.Initial initial → Transition.Fair session.Member schedule →
        session.Completes schedule initial := by
  constructor
  · intro enough initial schedule first fair
    have always := execution_reachable first fair
    have ends : ∃ time, 0 ≤ time ∧
        session.Finished (Transition.execution session.turn schedule initial time) := by
      apply fair.ends session.remaining (always 0)
        (fun _ _ reachable member => turn_reachable reachable member)
        (fun _ reachable => (invariant_of_reachable valid reachable).progress valid distinct
          divides enough)
        (fun _ _ _ helps => helps)
      intro state party other reachable helps member
      exact (invariant_of_reachable valid reachable).turn_kept valid member helps
    obtain ⟨time, _, finished⟩ := ends
    refine ⟨time, ?_⟩
    intro later order
    have stays : (Transition.execution session.turn schedule initial later).sender =
          (Transition.execution session.turn schedule initial time).sender ∧
        (Transition.execution session.turn schedule initial later).receiver =
          (Transition.execution session.turn schedule initial time).receiver := by
      induction later, order using Nat.le_induction with
      | base => exact ⟨rfl, rfl⟩
      | succ later _ ih =>
          have invariant := invariant_of_reachable valid (always later)
          have still : session.Finished (Transition.execution session.turn schedule initial later) := by
            rw [Finished, ih.1, ih.2]
            exact finished
          obtain ⟨sender, receiver⟩ := invariant.finished_turn valid still (fair.turns later)
          exact ⟨sender.trans ih.1, receiver.trans ih.2⟩
    have still : session.Finished (Transition.execution session.turn schedule initial later) := by
      rw [Finished, stays.1, stays.2]
      exact finished
    exact ⟨still, ((invariant_of_reachable valid (always later)).complete valid distinct still).2⟩
  · intro completes
    have first : session.Initial
        (session.start (session.frame 0) (session.kernel (session.frame 0))) :=
      start_initial _ _
    obtain ⟨time, ended⟩ := completes _ _ first fair_parties
    have reachable := execution_reachable first fair_parties time
    exact ((invariant_of_reachable valid reachable).complete valid distinct
      (ended time (Nat.le_refl time)).1).1

theorem paced_completes_three :
    let session : Session Nat Nat :=
      ⟨1, ⟨2, 3, 2⟩, ⟨2, 3, 5⟩, fun i => [i + 1], fun frame => frame.sum⟩
    session.Completes (session.party ∘ (· % 8)) (session.start [] 0) := by
  intro session
  have valid : session.Valid :=
    ⟨by decide, by decide, by decide, Or.inr ⟨2, by decide, by decide, rfl⟩, fun _ => rfl⟩
  have distinct : session.Distinct := by
    constructor
    · intro i _
      simp [session, Blank]
    · intro i _
      simp [session]
  exact (paced_completes_iff valid distinct (by decide)).mp (by decide) _ _
    (start_initial [] 0) fair_parties

end Session

end RockAMali
