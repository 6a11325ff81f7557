import RockAMali.AsioPending
import RockAMali.Backlog

/-!
`send.cpp`, the network and `receive.cpp` together. The threads of both programs
and the network take steps in any order; what the receiver stores is what came
through, in the order in which it did.
-/

namespace RockAMali

open Relay

/-! `delivered` are the datagrams that the network has brought to the socket of
the receiver, by their position among those sent, and the polls have taken the
first `taken` of them. -/

structure Transmission (Tdata β : Type*) where
  sender : State (List Tdata) Unit
  delivered : List Nat
  taken : Nat
  asio : CDataReceiveAsio Tdata
  receiver : State (List Tdata) β

structure Options where
  nbuffer : Nat
  count : Nat
  tn : Nat

/-- Both programs with the options `-b`, `-n` and `-c` of each and the frame size
`-s` of both; `frame i` is what the generator makes. -/
structure Session (Tdata β : Type*) where
  width : Nat
  sender : Options
  receiver : Options
  frame : Nat → List Tdata
  kernel : List Tdata → β

/-- `completions` is for the poll of thread 0 where that is in the spin loop. -/
inductive Agent
  | sender (id : Nat)
  | network (datagram : Nat)
  | receiver (id completions : Nat)

namespace Session

variable {Tdata β : Type*} [Zero Tdata] [DecidableEq Tdata] (session : Session Tdata β)
  (state : Transmission Tdata β)

def send : Program := RockAMali.send session.sender.nbuffer session.sender.count session.sender.tn

def receive : Program :=
  RockAMali.receive session.receiver.nbuffer session.receiver.count session.receiver.tn

def Spins : Prop :=
  state.receiver.exited = false ∧ session.receive.Running state.receiver 0 ∧
    (state.receiver.locals 0).phase = .access

instance : Decidable (session.Spins state) :=
  inferInstanceAs (Decidable (_ ∧ _ ∧ _))

def waiting : List (List Tdata) :=
  (state.delivered.drop state.taken).filterMap fun datagram => state.sender.data.sent[datagram]?

/-- A pass of the spin loop, whose poll completes a receive for each of the first
datagrams that wait, and the copy to the slot where it is the last. -/
def spin (completions : Nat) : Transmission Tdata β :=
  let arrivals := (waiting state).take completions
  let (asio, rec_buf) := state.asio.pass arrivals
  { state with
    taken := state.taken + arrivals.length
    asio
    receiver :=
      if rec_buf = [] then state.receiver
      else session.receive.step (fun _ => rec_buf) session.kernel state.receiver 0 }

def step : Agent → Transmission Tdata β
  | .sender id =>
      { state with
        sender := session.send.step session.frame (fun _ => ()) state.sender id }
  | .network datagram => { state with delivered := state.delivered ++ [datagram] }
  | .receiver id completions =>
      if id = 0 ∧ session.Spins state then session.spin state completions
      else
        -- no thread but 0 fills an image
        { state with
          receiver := session.receive.step (fun _ => []) session.kernel state.receiver id }

/-! What the network may bring next, after what it has brought: any of the
datagrams that were sent, those that were sent later, or the next of them once a
poll has taken the one before. -/

inductive Network
  | unordered
  | ordered
  | paced

def Network.allows : Network → List Nat → Nat → Nat → Prop
  | .unordered, _, _, _ => True
  | .ordered, delivered, _, datagram => ∀ earlier ∈ delivered, earlier < datagram
  | .paced, delivered, taken, datagram =>
      taken = delivered.length ∧ datagram = delivered.length

instance (network : Network) (delivered : List Nat) (taken datagram : Nat) :
    Decidable (network.allows delivered taken datagram) :=
  match network with
  | .unordered => isTrue trivial
  | .ordered => inferInstanceAs (Decidable (∀ earlier ∈ delivered, earlier < datagram))
  | .paced => inferInstanceAs (Decidable (_ ∧ _))

structure Initial : Prop where
  sender : session.send.Initial state.sender
  delivered : state.delivered = []
  taken : state.taken = 0
  asio : state.asio = .new session.width
  receiver : session.receive.Initial state.receiver

def Enabled (network : Network) : Agent → Prop
  | .sender id => id < session.send.threads
  | .network datagram =>
      datagram < state.sender.data.sent.length ∧
        network.allows state.delivered state.taken datagram
  | .receiver id _ => id < session.receive.threads

instance (network : Network) (agent : Agent) : Decidable (session.Enabled state network agent) :=
  match agent with
  | .sender _ => inferInstanceAs (Decidable (_ < _))
  | .network _ => inferInstanceAs (Decidable (_ ∧ _))
  | .receiver _ _ => inferInstanceAs (Decidable (_ < _))

def Next (network : Network) (successor : Transmission Tdata β) : Prop :=
  ∃ agent, session.Enabled state network agent ∧ successor = session.step state agent

def Reachable (network : Network) : Prop :=
  Transition.Reachable session.Initial (session.Next · network) state

def start (image : List Tdata) (result : β) : Transmission Tdata β where
  sender := session.send.start image ()
  delivered := []
  taken := 0
  asio := .new session.width
  receiver := session.receive.start image result

structure Valid : Prop where
  senderBuffer : 0 < session.sender.nbuffer
  senderThreads : 2 ≤ session.sender.tn
  receiverBuffer : 0 < session.receiver.nbuffer
  receiverThreads : session.receiver.tn = 2 ∨
    ∃ stride, 0 < stride ∧ stride ≤ session.receiver.nbuffer ∧ session.receiver.tn = stride + 3
  whole : ∀ i, (session.frame i).length = session.width

end Session

section Passes

variable {Tdata : Type*} [Zero Tdata] [DecidableEq Tdata]

def CDataReceiveAsio.after (polls : List (List (List Tdata)))
    (receiver : CDataReceiveAsio Tdata) : CDataReceiveAsio Tdata :=
  polls.foldl (fun receiver arrivals => (receiver.pass arrivals).1) receiver

theorem CDataReceiveAsio.delivered_append (polls later : List (List (List Tdata)))
    (receiver : CDataReceiveAsio Tdata) :
    delivered (polls ++ later) receiver =
      delivered polls receiver ++ delivered later (after polls receiver) := by
  induction polls generalizing receiver with
  | nil => rfl
  | cons arrivals polls ih =>
      simp only [List.cons_append, delivered, ih]
      split
      · rfl
      · rfl

theorem CDataReceiveAsio.delivered_vain {arrivals : List (List Tdata)}
    {receiver : CDataReceiveAsio Tdata} (vain : (receiver.pass arrivals).2 = []) :
    delivered [arrivals] receiver = [] := by
  simp only [delivered, if_pos vain]

theorem CDataReceiveAsio.delivered_read {arrivals : List (List Tdata)}
    {receiver : CDataReceiveAsio Tdata} (fresh : (receiver.pass arrivals).2 ≠ []) :
    delivered [arrivals] receiver = [(receiver.pass arrivals).2] := by
  simp only [delivered, if_neg fresh]

omit [Zero Tdata] [DecidableEq Tdata] in
theorem filterMap_getLast_sublist (polls : List (List (List Tdata))) :
    (polls.filterMap List.getLast?).Sublist polls.flatten := by
  induction polls with
  | nil => exact List.Sublist.refl []
  | cons arrivals polls ih =>
      rw [List.flatten_cons, List.filterMap_cons]
      cases last : arrivals.getLast? with
      | none => exact ih.trans (List.sublist_append_right _ _)
      | some datagram =>
          have single : [datagram].Sublist arrivals :=
            List.singleton_sublist.mpr (List.mem_of_getLast? last)
          exact single.append ih

omit [Zero Tdata] [DecidableEq Tdata] in
theorem filterMap_getLast_flatten {polls : List (List (List Tdata))}
    (few : ∀ arrivals ∈ polls, arrivals.length ≤ 1) :
    polls.filterMap List.getLast? = polls.flatten := by
  induction polls with
  | nil => rfl
  | cons arrivals polls ih =>
      have rest := ih fun later member => few later (List.mem_cons_of_mem _ member)
      have own := few arrivals List.mem_cons_self
      match arrivals with
      | [] => exact rest
      | [datagram] =>
          rw [List.filterMap_cons, List.getLast?_singleton, rest, List.flatten_cons]
          rfl
      | _ :: _ :: _ =>
          simp only [List.length_cons] at own
          omega

theorem newFrames_early (previous : List Tdata) {few many : List (List Tdata)}
    (fewer : few <+: many) : newFrames previous few <+: newFrames previous many := by
  obtain ⟨rest, rfl⟩ := fewer
  induction few generalizing previous with
  | nil => exact List.nil_prefix
  | cons frame few ih =>
      simp only [List.cons_append, newFrames]
      split
      · exact ih frame
      · exact List.prefix_cons_inj frame |>.mpr (ih frame)

end Passes

section Frames

variable {α β : Type*} {frame other : Nat → α} {kernel : α → β} {program : Program}
  {state : State α β} {id : Nat} {hold : Hold}

theorem Hold.perform_congr {index : Index} {data : Data α β} {image : β}
    (same : hold.action = .fill → frame index.i = other index.i) :
    hold.perform frame kernel index data image = hold.perform other kernel index data image := by
  rcases hold with ⟨_ | _, _, _, _, _ | _ | _ | _ | _⟩
  case images.fill | results.fill => simp only [Hold.perform, same rfl]
  all_goals rfl

theorem Program.step_congr (same : ∀ hold, program.current state id = some hold →
      (state.locals id).phase = .access → hold.action = .fill →
        frame (state.locals id).index.i = other (state.locals id).index.i) :
    program.step frame kernel state id = program.step other kernel state id := by
  simp only [Program.step]
  split
  · rfl
  · cases current : program.current state id with
    | none => rfl
    | some hold =>
        cases phase : (state.locals id).phase with
        | wait => rfl
        | access =>
            simp only [State.perform, Hold.perform_congr (same hold current phase)]
        | set => rfl

theorem receive_fill {nbuffer count tn part : Nat}
    (found : ((RockAMali.receive nbuffer count tn).thread id).iteration[part]? = some hold)
    (fills : hold.action = .fill) : id = 0 := by
  rcases id with _ | _ | _ | id
  · rfl
  · obtain ⟨_, rfl⟩ := getElem?_single found
    cases fills
  · obtain ⟨_, rfl⟩ := getElem?_single found
    cases fills
  · rcases getElem?_pair found with ⟨_, rfl⟩ | ⟨_, rfl⟩ <;> cases fills

theorem Program.sent_step (exited : state.exited = false) :
    state.data.sent <+: (program.step frame kernel state id).data.sent := by
  rcases program.step_cases frame kernel id exited with same | ⟨hold, _, step⟩
  · rw [same]
  · rcases step with ⟨_, _, taken⟩ | ⟨_, taken⟩ | ⟨_, _, taken⟩ | ⟨_, _, taken⟩
    · rw [taken]
    · simp only [taken, State.perform, Hold.perform_sent]
      split
      · exact List.prefix_append _ _
      · exact List.prefix_rfl
    · rw [taken]
    · rw [taken]

end Frames

namespace Session

variable {Tdata β : Type*} [Zero Tdata] [DecidableEq Tdata] {session : Session Tdata β}
  {state : Transmission Tdata β} {network : Network}

def Network.History : Network → List Nat → Prop
  | .unordered, _ => True
  | .ordered, delivered => delivered.Pairwise (· < ·)
  | .paced, delivered => delivered = List.range delivered.length

theorem Network.History.append {delivered : List Nat} {taken datagram : Nat}
    (history : network.History delivered) (allowed : network.allows delivered taken datagram) :
    network.History (delivered ++ [datagram]) := by
  cases network with
  | unordered => trivial
  | ordered =>
      refine List.pairwise_append.mpr ⟨history, List.pairwise_singleton _ _, ?_⟩
      intro earlier before next here
      rw [List.mem_singleton.mp here]
      exact allowed earlier before
  | paced =>
      obtain ⟨_, next⟩ := allowed
      have before : delivered = List.range delivered.length := history
      simp only [Network.History, List.length_append, List.length_singleton, List.range_succ, next,
        ← before]

variable (session) (state)

def read (polls : List (List (List Tdata))) : List (List Tdata) :=
  CDataReceiveAsio.delivered polls (.new session.width)

structure Passes (polls : List (List (List Tdata))) : Prop where
  taken : polls.flatten = (state.delivered.take state.taken).map session.frame
  asio : state.asio = CDataReceiveAsio.after polls (.new session.width)
  filled : session.receive.filled state.receiver = (session.read polls).length
  reachable : ∀ frame, (∀ i image, (session.read polls)[i]? = some image → frame i = image) →
    session.receive.Reachable frame session.kernel state.receiver

structure Invariant (network : Network) : Prop where
  sender : session.send.Reachable session.frame (fun _ => ()) state.sender
  delivered : ∀ datagram ∈ state.delivered, datagram < state.sender.data.sent.length
  history : network.History state.delivered
  taken : state.taken ≤ state.delivered.length
  single : network = .paced → state.delivered.length ≤ state.taken + 1
  passes : ∃ polls, session.Passes state polls ∧
    (network = .paced → ∀ arrivals ∈ polls, arrivals.length ≤ 1)

variable {session} {state}

omit [Zero Tdata] [DecidableEq Tdata] in
theorem Valid.exists_roster (valid : session.Valid) : Nonempty (Roster session.receive) := by
  have positive := valid.receiverBuffer
  simp only [receive]
  rcases valid.receiverThreads with alone | ⟨stride, stridePositive, fits, threads⟩
  · rw [alone]
    exact ⟨receiveOnlyRoster _ _ positive⟩
  · rw [threads]
    exact ⟨receiveRoster _ _ _ stridePositive fits⟩

omit [Zero Tdata] [DecidableEq Tdata] in
theorem Valid.threads (valid : session.Valid) : 0 < session.receive.threads := by
  simp only [receive, RockAMali.receive]
  rcases valid.receiverThreads with alone | ⟨stride, _, _, threads⟩ <;> omega

theorem Invariant.initial (first : session.Initial state) : session.Invariant state network := by
  constructor
  · exact .start first.sender
  · simp [first.delivered]
  · rw [first.delivered]
    cases network with
    | unordered => trivial
    | ordered => exact List.Pairwise.nil
    | paced => rfl
  · rw [first.taken]
    exact Nat.zero_le _
  · simp [first.delivered]
  · refine ⟨[], ⟨?_, ?_, ?_, ?_⟩, fun _ _ member => absurd member List.not_mem_nil⟩
    · rw [first.taken]
      rfl
    · exact first.asio
    · simp [Program.filled, Thread.accesses, Thread.iterations, first.receiver.index,
        first.receiver.hold, first.receiver.phase, Run.first, read, CDataReceiveAsio.delivered]
    · intro frame _
      exact .start first.receiver

theorem Invariant.sent_eq (invariant : session.Invariant state network) (valid : session.Valid)
    {datagram : Nat} (sent : datagram < state.sender.data.sent.length) :
    state.sender.data.sent[datagram]? = some (session.frame datagram) := by
  have before := send_sends valid.senderBuffer valid.senderThreads invariant.sender
  obtain ⟨rest, whole⟩ := before
  have inside : datagram < session.sender.count := by
    have length := congrArg List.length whole
    simp only [List.length_append, List.length_map, List.length_range] at length
    omega
  have here : (state.sender.data.sent ++ rest)[datagram]? = state.sender.data.sent[datagram]? :=
    List.getElem?_append_left sent
  rw [← here, whole, List.getElem?_map, List.getElem?_range inside, Option.map_some]

theorem Invariant.waiting_eq (invariant : session.Invariant state network)
    (valid : session.Valid) :
    waiting state = (state.delivered.drop state.taken).map session.frame := by
  have each : ∀ datagram ∈ state.delivered.drop state.taken,
      state.sender.data.sent[datagram]? = some (session.frame datagram) := by
    intro datagram member
    exact invariant.sent_eq valid (invariant.delivered datagram (List.mem_of_mem_drop member))
  rw [waiting, List.filterMap_congr each, ← Function.comp_def, List.filterMap_eq_map]

theorem Passes.invariant {polls : List (List (List Tdata))}
    (passes : session.Passes state polls) (roster : Roster session.receive) :
    roster.Invariant state.receiver := by
  refine roster.invariant_of_reachable
    (passes.reachable (fun i => (session.read polls)[i]?.getD []) ?_)
  intro i image found
  simp only [found, Option.getD_some]

theorem Passes.spinning {polls : List (List (List Tdata))} (passes : session.Passes state polls)
    (bound : 0 < session.receive.threads) {roster : Roster session.receive}
    (invariant : roster.Invariant state.receiver) (spins : session.Spins state) :
    ∃ hold, session.receive.current state.receiver 0 = some hold ∧
      (state.receiver.locals 0).index.i = (session.read polls).length ∧
      (state.receiver.locals 0).hold = 0 := by
  obtain ⟨_, running, accessing⟩ := spins
  obtain ⟨hold, current⟩ := Option.isSome_iff_exists.mp running
  have first := (getElem?_single (Program.current_some current).2).1
  refine ⟨hold, current, ?_, first⟩
  have label := invariant.label_buffer bound rfl
  rw [label, ← passes.filled]
  simp [Program.filled, Thread.accesses, accessing, first]

theorem Passes.sleep {polls : List (List (List Tdata))} (passes : session.Passes state polls)
    (valid : session.Valid) {id : Nat} (bound : id < session.receive.threads)
    (elsewhere : ¬(id = 0 ∧ session.Spins state)) (completions : Nat) :
    session.Passes (session.step state (.receiver id completions)) polls := by
  obtain ⟨roster⟩ := valid.exists_roster
  have invariant := passes.invariant roster
  obtain ⟨taken, asio, filled, reachable⟩ := passes
  have notFilling (hold : Hold) (current : session.receive.current state.receiver id = some hold)
      (accessing : (state.receiver.locals id).phase = .access) : hold.action ≠ .fill := by
    intro fills
    have source := receive_fill (Program.current_some current).2 fills
    subst source
    exact elsewhere ⟨rfl, invariant.exited, by rw [Program.Running, current, Option.isSome_some],
      accessing⟩
  simp only [step, if_neg elsewhere]
  refine ⟨taken, asio, ?_, ?_⟩
  · rw [← filled]
    apply invariant.accesses_step bound (Nat.zero_lt_succ 0)
    rintro rfl running accessing
    exact elsewhere ⟨rfl, invariant.exited, running, accessing⟩
  · intro frame begins
    have same : session.receive.step (fun _ => []) session.kernel state.receiver id =
        session.receive.step frame session.kernel state.receiver id :=
      Program.step_congr fun hold current accessing fills =>
        (notFilling hold current accessing fills).elim
    rw [same]
    exact .step (reachable frame begins) ⟨id, bound, rfl⟩

theorem spin_took {polls : List (List (List Tdata))}
    (taken : polls.flatten = (state.delivered.take state.taken).map session.frame)
    (came : waiting state = (state.delivered.drop state.taken).map session.frame)
    (completions : Nat) :
    (polls ++ [(waiting state).take completions]).flatten =
      ((session.spin state completions).delivered.take
        (session.spin state completions).taken).map session.frame := by
  have now := List.prefix_iff_eq_take.mp (List.take_prefix completions (waiting state))
  rw [List.flatten_append, List.flatten_singleton, taken]
  simp only [Session.spin, List.take_add, List.map_append]
  rw [List.map_take (l := state.delivered.drop state.taken), ← came, ← now]

theorem Passes.spin {polls : List (List (List Tdata))} (passes : session.Passes state polls)
    (valid : session.Valid) (spins : session.Spins state)
    (came : waiting state = (state.delivered.drop state.taken).map session.frame)
    (completions : Nat) :
    session.Passes (session.spin state completions)
      (polls ++ [(waiting state).take completions]) := by
  obtain ⟨roster⟩ := valid.exists_roster
  have invariant := passes.invariant roster
  obtain ⟨hold, current, label, first⟩ := passes.spinning valid.threads invariant spins
  obtain ⟨taken, asio, filled, reachable⟩ := passes
  obtain ⟨exited, _, accessing⟩ := spins
  generalize arrived : (waiting state).take completions = arrivals
  have perform (frame : Nat → List Tdata) :
      session.receive.step frame session.kernel state.receiver 0 =
        state.receiver.perform frame session.kernel 0 hold := by
    simp only [Program.step, exited, current, accessing, Bool.false_eq_true, if_false]
  have readNext : session.read (polls ++ [arrivals]) = session.read polls ++
      CDataReceiveAsio.delivered [arrivals] state.asio := by
    rw [read, CDataReceiveAsio.delivered_append, ← asio]
    rfl
  have after : (session.spin state completions).asio =
      CDataReceiveAsio.after (polls ++ [arrivals]) (.new session.width) := by
    simp only [Session.spin, CDataReceiveAsio.after, List.foldl_append, List.foldl_cons,
      List.foldl_nil, asio, arrived]
  have took : (polls ++ [arrivals]).flatten =
      ((session.spin state completions).delivered.take
        (session.spin state completions).taken).map session.frame := by
    rw [← arrived]
    exact spin_took taken came completions
  by_cases nothing : (state.asio.pass arrivals).2 = []
  · have same : (session.spin state completions).receiver = state.receiver := by
      simp only [Session.spin, arrived, if_pos nothing]
    have readSame : session.read (polls ++ [arrivals]) = session.read polls := by
      rw [readNext, CDataReceiveAsio.delivered_vain nothing, List.append_nil]
    refine ⟨took, after, ?_, ?_⟩
    · rw [same, readSame, filled]
    · rw [same, readSame]
      exact reachable
  · generalize image : (state.asio.pass arrivals).2 = rec_buf at nothing
    have copied : (session.spin state completions).receiver =
        session.receive.step (fun _ => rec_buf) session.kernel state.receiver 0 := by
      simp only [Session.spin, arrived, image, if_neg nothing]
    have readMore : session.read (polls ++ [arrivals]) = session.read polls ++ [rec_buf] := by
      rw [readNext, CDataReceiveAsio.delivered_read (image ▸ nothing), image]
    refine ⟨took, after, ?_, ?_⟩
    · rw [copied, perform, readMore, List.length_append, List.length_singleton, ← filled]
      simp only [Program.filled]
      rw [Roster.accesses_perform accessing, if_pos ⟨rfl, first.symm⟩]
    · intro frame begins
      have here : frame (session.read polls).length = rec_buf := begins _ _ (by
        rw [readMore, List.getElem?_concat_length])
      have same : session.receive.step (fun _ => rec_buf) session.kernel state.receiver 0 =
          session.receive.step frame session.kernel state.receiver 0 :=
        Program.step_congr fun _ _ _ _ => by rw [label, here]
      rw [copied, same]
      refine .step (reachable frame ?_) ⟨0, valid.threads, rfl⟩
      intro i image found
      apply begins
      rw [readMore, List.getElem?_append_left (List.getElem?_eq_some_iff.mp found).1, found]

theorem Invariant.waiting_length (invariant : session.Invariant state network)
    (valid : session.Valid) :
    (waiting state).length = state.delivered.length - state.taken := by
  rw [invariant.waiting_eq valid, List.length_map, List.length_drop]

theorem spin_taken (completions : Nat) : (session.spin state completions).taken =
    state.taken + min completions (waiting state).length := by
  simp only [Session.spin, List.length_take]

theorem Invariant.step (invariant : session.Invariant state network) (valid : session.Valid)
    {agent : Agent} (enabled : session.Enabled state network agent) :
    session.Invariant (session.step state agent) network := by
  have came := invariant.waiting_eq valid
  have length := invariant.waiting_length valid
  obtain ⟨sender, delivered, history, taken, single, polls, passes, few⟩ := invariant
  cases agent with
  | sender id =>
      let roster := sendRoster _ session.sender.count _ valid.senderBuffer valid.senderThreads
      have exited := (roster.invariant_of_reachable sender).exited
      have more : state.sender.data.sent.length ≤ (session.send.step session.frame
          (fun _ => ()) state.sender id).data.sent.length := (Program.sent_step exited).length_le
      refine ⟨.step sender ⟨id, enabled, rfl⟩, ?_, history, taken, single, polls, ?_, few⟩
      · intro datagram member
        exact Nat.lt_of_lt_of_le (delivered datagram member) more
      · exact ⟨passes.taken, passes.asio, passes.filled, passes.reachable⟩
  | network datagram =>
      obtain ⟨sent, allowed⟩ := enabled
      refine ⟨sender, ?_, history.append allowed, ?_, ?_, polls, ?_, few⟩
      · intro other member
        rcases List.mem_append.mp member with before | last
        · exact delivered other before
        · rw [List.mem_singleton.mp last]
          exact sent
      · simp only [Session.step, List.length_append, List.length_singleton]
        omega
      · rintro rfl
        obtain ⟨all, _⟩ := allowed
        simp only [Session.step, List.length_append, List.length_singleton]
        omega
      · refine ⟨?_, passes.asio, passes.filled, passes.reachable⟩
        rw [passes.taken]
        simp only [Session.step, List.take_append_of_le_length taken]
  | receiver id completions =>
      by_cases spinning : id = 0 ∧ session.Spins state
      · have spun : session.step state (.receiver id completions) =
            session.spin state completions := if_pos spinning
        have now : (session.spin state completions).taken =
            state.taken + min completions (waiting state).length := spin_taken completions
        have same : (session.spin state completions).delivered = state.delivered := rfl
        rw [spun]
        refine ⟨sender, delivered, history, ?_, ?_, _,
          passes.spin valid spinning.2 came completions, ?_⟩
        · rw [now, same]
          omega
        · intro paced
          have before := single paced
          rw [now, same]
          omega
        · intro paced arrivals member
          have before := single paced
          rcases List.mem_append.mp member with earlier | last
          · exact few paced arrivals earlier
          · rw [List.mem_singleton.mp last, List.length_take]
            omega
      · have slept := passes.sleep valid enabled spinning completions
        rw [Session.step, if_neg spinning] at slept ⊢
        exact ⟨sender, delivered, history, taken, single, polls, slept, few⟩

theorem invariant_of_reachable (valid : session.Valid)
    (reachable : session.Reachable state network) : session.Invariant state network := by
  apply Transition.Reachable.invariant _ _ reachable
  · exact fun first initial => Invariant.initial initial
  · rintro before after invariant ⟨agent, enabled, rfl⟩
    exact invariant.step valid enabled

variable (session) in
def shownFrames (shown : List Nat) : List (List Tdata) :=
  newFrames (List.replicate session.width 0) (shown.map session.frame)

theorem Passes.read_eq {polls : List (List (List Tdata))}
    (passes : session.Passes state polls) (valid : session.Valid) :
    session.read polls =
      newFrames (List.replicate session.width 0) (polls.dropLast.filterMap List.getLast?) := by
  apply CDataReceiveAsio.new_delivered
  intro arrivals inside datagram member
  have taken : datagram ∈ polls.flatten := List.mem_flatten_of_mem inside member
  rw [passes.taken] at taken
  obtain ⟨i, _, rfl⟩ := List.mem_map.mp taken
  exact valid.whole i

theorem Invariant.read_early (invariant : session.Invariant state network)
    (valid : session.Valid) :
    ∃ polls, session.Passes state polls ∧ ∃ shown : List Nat, shown.Sublist state.delivered ∧
      (network = .paced → shown <+: state.delivered) ∧
      session.read polls <+: session.shownFrames shown := by
  obtain ⟨polls, passes, few⟩ := invariant.passes
  have early : polls.dropLast.filterMap List.getLast? <+: polls.filterMap List.getLast? :=
    (List.dropLast_prefix polls).filterMap List.getLast?
  refine ⟨polls, passes, ?_⟩
  by_cases paced : network = .paced
  · refine ⟨state.delivered.take state.taken, List.take_sublist _ _, fun _ => List.take_prefix _ _, ?_⟩
    rw [passes.read_eq valid, shownFrames, ← passes.taken, ← filterMap_getLast_flatten (few paced)]
    exact newFrames_early _ early
  · have some_taken := filterMap_getLast_sublist polls
    rw [passes.taken] at some_taken
    obtain ⟨shown, inside, same⟩ := List.sublist_map_iff.mp some_taken
    refine ⟨shown, inside.trans (List.take_sublist _ _), fun waits => absurd waits paced, ?_⟩
    rw [passes.read_eq valid, shownFrames, ← same]
    exact newFrames_early _ early

omit [Zero Tdata] [DecidableEq Tdata] in
theorem range_getD_early {γ : Type*} {images : List (List Tdata)} {few : Nat}
    (fewer : few ≤ images.length) (value : List Tdata → γ) :
    (List.range few).map (fun i => value (images[i]?.getD [])) <+: images.map value := by
  have same : (List.range few).map (fun i => value (images[i]?.getD [])) =
      (images.take few).map value := by
    apply List.ext_getElem
    · simp [Nat.min_eq_left fewer]
    · intro i first second
      have inside : i < images.length := by
        simp only [List.length_map, List.length_range] at first
        omega
      simp [inside]
  rw [same]
  exact (List.take_prefix few images).map value

theorem Invariant.stores (invariant : session.Invariant state network) (valid : session.Valid) :
    ∃ shown : List Nat, shown.Sublist state.delivered ∧
      (network = .paced → shown <+: state.delivered) ∧
      state.receiver.data.stored <+: session.shownFrames shown ∧
      (session.receiver.tn ≠ 2 → state.receiver.data.storedR <+:
        (session.shownFrames shown).map session.kernel) := by
  obtain ⟨polls, passes, shown, inside, paced, early⟩ := invariant.read_early valid
  refine ⟨shown, inside, paced, ?_⟩
  let next (i : Nat) : List Tdata := (session.read polls)[i]?.getD []
  have reachable := passes.reachable next (by
    intro i image found
    simp only [next, found, Option.getD_some])
  simp only [Session.receive] at reachable
  have filled := passes.filled
  simp only [Session.receive] at filled
  rcases valid.receiverThreads with alone | ⟨stride, positive, fits, threads⟩
  · rw [alone] at reachable filled
    obtain ⟨raw, stored, few, _⟩ := receiveOnly_filled valid.receiverBuffer reachable
    rw [filled] at few
    rw [stored]
    exact ⟨(range_getD_early few id).trans (by simpa using early), fun more => absurd alone more⟩
  · rw [threads] at reachable filled
    obtain ⟨⟨raw, stored, few, _⟩, results, storedR, fewR, _⟩ :=
      receive_filled positive fits reachable
    rw [filled] at few fewR
    rw [stored, storedR]
    exact ⟨(range_getD_early few id).trans (by simpa using early),
      fun _ => (range_getD_early fewR session.kernel).trans (early.map session.kernel)⟩

theorem Invariant.delivered_lt (invariant : session.Invariant state network)
    (valid : session.Valid) {datagram : Nat} (came : datagram ∈ state.delivered) :
    datagram < session.sender.count := by
  have before := send_sends valid.senderBuffer valid.senderThreads invariant.sender
  have length := before.length_le
  rw [List.length_map, List.length_range] at length
  exact Nat.lt_of_lt_of_le (invariant.delivered datagram came) length

theorem run_reachable {agents : List Agent} (reachable : session.Reachable state network)
    (along : Transition.Along (fun state agent => some (session.step state agent))
      (fun state agent => session.Enabled state network agent) state agents) :
    session.Reachable (agents.foldl session.step state) network := by
  induction agents generalizing state with
  | nil => exact reachable
  | cons agent agents ih =>
      obtain ⟨enabled, later⟩ := along
      exact ih (.step reachable ⟨agent, enabled, rfl⟩) (later _ rfl)

omit [DecidableEq Tdata] in
theorem start_initial (image : List Tdata) (result : β) :
    session.Initial (session.start image result) :=
  ⟨Program.start_initial _ _, rfl, rfl, rfl, Program.start_initial _ _⟩

/-- Through a network that loses datagrams but keeps their order, the receiver
stores frames in the order in which the sender made them, and none twice. -/
theorem ordered_transmission (valid : session.Valid)
    (reachable : session.Reachable state .ordered) :
    ∃ kept : List Nat, kept.Pairwise (· < ·) ∧ (∀ i ∈ kept, i < session.sender.count) ∧
      state.receiver.data.stored <+: kept.map session.frame ∧
      (session.receiver.tn ≠ 2 →
        state.receiver.data.storedR <+: kept.map fun i => session.kernel (session.frame i)) := by
  have invariant := invariant_of_reachable valid reachable
  obtain ⟨shown, inside, _, stored, storedR⟩ := invariant.stores valid
  obtain ⟨kept, some, fresh⟩ := List.sublist_map_iff.mp
    (newFrames_sublist (List.replicate session.width 0) (shown.map session.frame))
  have increasing : state.delivered.Pairwise (· < ·) := invariant.history
  rw [shownFrames, fresh] at stored storedR
  refine ⟨kept, increasing.sublist (some.trans inside), ?_, stored, ?_⟩
  · intro i member
    exact invariant.delivered_lt valid (inside.subset (some.subset member))
  · intro processing
    simpa [Function.comp_def] using storedR processing

theorem ordered_transmission_loss :
    let session : Session Nat Nat :=
      ⟨1, ⟨1, 3, 2⟩, ⟨2, 2, 2⟩, fun i => [i + 1], fun _ => 0⟩
    let state := ([.sender 0, .sender 0, .sender 0, .sender 1, .sender 1, .sender 1,
      .sender 0, .sender 0, .sender 0, .sender 1, .sender 1, .network 0, .network 1,
      .receiver 0 0, .receiver 0 2, .receiver 0 0, .receiver 0 0, .receiver 1 0, .receiver 1 0] :
      List Agent).foldl session.step (session.start [] 0)
    state.receiver.data.stored = [[2]] ∧
      ∃ kept : List Nat, kept.Pairwise (· < ·) ∧ (∀ i ∈ kept, i < 3) ∧
        state.receiver.data.stored <+: kept.map fun i => [i + 1] := by
  intro session state
  have valid : session.Valid :=
    ⟨by decide, by decide, by decide, Or.inl rfl, fun _ => rfl⟩
  have reachable : session.Reachable state .ordered :=
    run_reachable (.start (start_initial [] 0)) (by decide +kernel)
  refine ⟨by decide +kernel, ?_⟩
  obtain ⟨kept, increasing, inside, stored, _⟩ := ordered_transmission valid reachable
  exact ⟨kept, increasing, inside, stored⟩

/-- Frames that the receiver does not take for no frame, or for the one before. -/
structure Distinct (session : Session Tdata β) : Prop where
  shown : ∀ i < session.sender.count, ¬Blank (session.frame i)
  changing : ∀ i, i + 1 < session.sender.count → session.frame i ≠ session.frame (i + 1)

theorem Distinct.shownFrames (distinct : session.Distinct) {few : Nat}
    (inside : few ≤ session.sender.count) :
    session.shownFrames (List.range few) = (List.range few).map session.frame := by
  rw [Session.shownFrames]
  apply newFrames_eq_self
  · intro frame member
    obtain ⟨i, before, rfl⟩ := List.mem_map.mp member
    exact distinct.shown i (by have := List.mem_range.mp before; omega)
  · apply List.IsChain.cons
    · rw [List.isChain_map, List.isChain_range]
      intro i before
      exact distinct.changing i (by omega)
    · intro frame first same
      obtain ⟨i, before, rfl⟩ := List.mem_map.mp (List.mem_of_mem_head? first)
      apply distinct.shown i (by have := List.mem_range.mp before; omega)
      rw [← same]
      exact CDataReceiveAsio.blank_replicate session.width

theorem Invariant.delivered_le (invariant : session.Invariant state .paced)
    (valid : session.Valid) : state.delivered.length ≤ session.sender.count := by
  have history : state.delivered = List.range state.delivered.length := invariant.history
  by_contra more
  have came : session.sender.count ∈ state.delivered := by
    rw [history]
    exact List.mem_range.mpr (Nat.lt_of_not_le more)
  exact Nat.lt_irrefl _ (invariant.delivered_lt valid came)

theorem paced_stores (valid : session.Valid) (distinct : session.Distinct)
    (invariant : session.Invariant state .paced) :
    state.receiver.data.stored <+: (List.range session.sender.count).map session.frame ∧
      (session.receiver.tn ≠ 2 → state.receiver.data.storedR <+:
        (List.range session.sender.count).map fun i => session.kernel (session.frame i)) := by
  obtain ⟨shown, _, paced, stored, storedR⟩ := invariant.stores valid
  have history : state.delivered = List.range state.delivered.length := invariant.history
  have early := paced rfl
  have few : shown.length ≤ session.sender.count :=
    early.length_le.trans (invariant.delivered_le valid)
  have numbers : shown = List.range shown.length := by
    rw [List.prefix_iff_eq_take.mp early, history, List.take_range, List.length_range]
  rw [numbers, distinct.shownFrames few] at stored storedR
  have whole : (List.range shown.length).map session.frame <+:
      (List.range session.sender.count).map session.frame := range_prefix few _
  refine ⟨stored.trans whole, ?_⟩
  intro processing
  refine (storedR processing).trans ?_
  rw [List.map_map]
  exact range_prefix few _

end Session

end RockAMali
