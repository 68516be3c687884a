import Marvin.SimpleProxy.FilterListing

namespace Marvin.SimpleProxy

open Marvin.Data Marvin.Http Marvin.Server

/-! # The command line

`apps/simple_proxy/simple_proxy_cli.cpp`: every command is sent as one request to the
control port, and its help says what it does to the proxy.
-/

inductive Command where
  | stop
  | filterList
  | filterRemove (idNumber : Bytes)
  | filterAdd (filterRegex : Bytes)
  | bodiesOff
  | bodiesOn
deriving DecidableEq, Repr

structure ControlRequest where
  method : Bytes
  path : Bytes
deriving DecidableEq, Repr

namespace Command

/-- The handlers in `jump_table`. -/
def handler : Command → ControlRequest
  | stop => ⟨ascii "GET", ascii "/stop"⟩
  | filterList => ⟨ascii "GET", ascii "/filter_list"⟩
  | filterRemove idNumber => ⟨ascii "DELETE", ascii "/filter_remove/" ++ idNumber⟩
  | filterAdd filterRegex => ⟨ascii "POST", ascii "/filter_add/" ++ filterRegex⟩
  | bodiesOff => ⟨ascii "POST", ascii "/bodies_off"⟩
  | bodiesOn => ⟨ascii "POST", ascii "/bodies_on"⟩

/-- The parameters that stand for every filter. -/
def everyFilter : List Bytes :=
  [ascii "*", ascii "all"]

/-- What a command does, by its help. -/
def carryOut (proxy : Proxy) : Command → Proxy
  | stop | filterList => proxy
  | filterRemove idNumber =>
      { proxy with
        filters :=
          if idNumber ∈ everyFilter then []
          else if isNumber idNumber then proxy.filters.eraseIdx (digitsValue idNumber)
          else proxy.filters }
  | filterAdd filterRegex => { proxy with filters := proxy.filters ++ [filterRegex] }
  | bodiesOff => { proxy with showMessageBodies := false }
  | bodiesOn => { proxy with showMessageBodies := true }

/-- The commands that the control server understands as they are meant.  It knows no
parameter for every filter, and a pattern goes no further than a slash or a line. -/
def Understood (proxy : Proxy) : Command → Prop
  | filterRemove idNumber =>
      if idNumber ∈ everyFilter then proxy.filters = []
      else (∀ byte ∈ idNumber, notLineEnd byte = true) →
        Spared proxy.filters (commandPath SimpleProxy.filterRemove idNumber)
  | filterAdd filterRegex => slash ∉ filterRegex ∧ ∀ byte ∈ filterRegex, notLineEnd byte = true
  | _ => True

/-- Every one of the commands is understood in the state that those before it are to
leave. -/
def AllUnderstood (proxy : Proxy) : List Command → Prop
  | [] => True
  | command :: rest => command.Understood proxy ∧ AllUnderstood (command.carryOut proxy) rest

def carryOutAll (proxy : Proxy) (commands : List Command) : Proxy :=
  commands.foldl carryOut proxy

end Command

/-! ## One command -/

theorem find_filter_prefixed (rest : Bytes) :
    find (ascii "/filter" ++ rest) =
      if rest.all notLineEnd then some .filter else none := by
  split
  · next accepted => exact find_filter_iff.mpr ⟨rest, rfl, List.all_eq_true.mp accepted⟩
  · next refused =>
      have stop : ¬ (Regex.word (· == ·) (ascii "/stop") .empty).matchWhole
          (ascii "/filter" ++ rest) = true := by
        rw [Regex.matchWhole_literal]
        intro same
        cases same
      have filter : ¬ (Regex.word (· == ·) (ascii "/filter") (.star (.one notLineEnd))).matchWhole
          (ascii "/filter" ++ rest) = true := by
        rw [Regex.matchWhole_starting]
        intro matched
        obtain ⟨other, same, accepted⟩ := matched
        rw [List.append_cancel_left same] at refused
        exact refused (List.all_eq_true.mpr accepted)
      have bodies : ¬ (Regex.word (· == ·) (ascii "/bodies_") (.star (.one notLineEnd))).matchWhole
          (ascii "/filter" ++ rest) = true := by
        rw [Regex.matchWhole_starting]
        intro matched
        obtain ⟨other, same, _⟩ := matched
        cases same
      simp [find, dispatchTable, stop, filter, bodies]

theorem everyFilter_plain {idNumber : Bytes} (all : idNumber ∈ Command.everyFilter) :
    isNumber idNumber = false ∧ ∀ byte ∈ idNumber, notLineEnd byte = true ∧ byte ≠ slash := by
  have checked : Command.everyFilter.all (fun idNumber => !isNumber idNumber &&
      idNumber.all fun byte => notLineEnd byte && byte != slash) = true := by
    decide
  have parts := List.all_eq_true.mp checked idNumber all
  rw [Bool.and_eq_true, Bool.not_eq_true', List.all_eq_true] at parts
  refine ⟨parts.1, fun byte member => ?_⟩
  have plain := parts.2 byte member
  rw [Bool.and_eq_true, bne_iff_ne] at plain
  exact plain

theorem isDigit_notLineEnd {byte : UInt8} (digit : isDigit byte = true) : notLineEnd byte = true := by
  rw [notLineEnd, Bool.and_eq_true, bne_iff_ne, bne_iff_ne]
  constructor
  · intro same
    subst same
    exact absurd digit (by decide)
  · intro same
    subst same
    exact absurd digit (by decide)

variable {proxy : Proxy} {request : MessageBase}

theorem respond_prefixed {rest : Bytes} (path : request.target = ascii "/filter" ++ rest) :
    (respond proxy request).1 =
      if rest.all notLineEnd then
        { proxy with filters := (editFilters proxy.filters (splitPath request.target)).1 }
      else proxy := by
  have found := find_filter_prefixed rest
  rw [← path] at found
  split at found
  · next accepted =>
      rw [if_pos accepted, respond, found]
      rfl
  · next refused => rw [if_neg refused, respond, found]

theorem all_notLineEnd_append {front : Bytes} (plain : front.all notLineEnd = true) (text : Bytes) :
    (front ++ text).all notLineEnd = true ↔ ∀ byte ∈ text, notLineEnd byte = true := by
  rw [List.all_append, plain, Bool.true_and, List.all_eq_true]

theorem respond_remove_iff {idNumber : Bytes}
    (path : request.target = commandPath filterRemove idNumber) :
    (respond proxy request).1 = (Command.filterRemove idNumber).carryOut proxy ↔
      (Command.filterRemove idNumber).Understood proxy := by
  have front : (ascii "_remove/").all notLineEnd = true := by decide
  have acceptable := all_notLineEnd_append front idNumber
  have served := @respond_prefixed proxy request (ascii "_remove/" ++ idNumber) path
  have edited := remove_as_specified_iff proxy.filters idNumber
  rw [specified_remove] at edited
  rw [served, path, Command.carryOut, Command.Understood]
  by_cases all : idNumber ∈ Command.everyFilter
  · obtain ⟨named, plain⟩ := everyFilter_plain all
    have unsplit : idNumber.splitOnP (· == slash) = [idNumber] :=
      List.splitOnP_eq_singleton fun byte member => by simp [(plain byte member).2]
    rw [if_pos (acceptable.mpr fun byte member => (plain byte member).1), if_pos all, if_pos all,
      splitPath_command filterRemove_plain, unsplit, editFilters_remove, named,
      if_neg Bool.false_ne_true]
    constructor
    · intro same
      exact congrArg Proxy.filters same
    · intro none
      rw [none]
  · rw [if_neg all, if_neg all]
    by_cases accepted : ∀ byte ∈ idNumber, notLineEnd byte = true
    · rw [if_pos (acceptable.mpr accepted), ← edited]
      constructor
      · intro same _
        exact congrArg Proxy.filters same
      · intro same
        rw [same accepted]
    · have named : isNumber idNumber = false := by
        rw [← Bool.not_eq_true]
        intro number
        rw [isNumber, Bool.and_eq_true, List.all_eq_true] at number
        exact accepted fun byte member => isDigit_notLineEnd (number.2 byte member)
      rw [if_neg (accepted ∘ acceptable.mp), named, if_neg Bool.false_ne_true]
      exact iff_of_true rfl fun other => absurd other accepted

theorem respond_add_iff {filterRegex : Bytes}
    (path : request.target = commandPath filterAdd filterRegex) :
    (respond proxy request).1 = (Command.filterAdd filterRegex).carryOut proxy ↔
      (Command.filterAdd filterRegex).Understood proxy := by
  have front : (ascii "_add/").all notLineEnd = true := by decide
  have acceptable := all_notLineEnd_append front filterRegex
  have served := @respond_prefixed proxy request (ascii "_add/" ++ filterRegex) path
  have edited := add_as_specified_iff proxy.filters filterRegex
  rw [specified_add, spared_add] at edited
  rw [served, path, Command.carryOut, Command.Understood]
  by_cases accepted : ∀ byte ∈ filterRegex, notLineEnd byte = true
  · rw [if_pos (acceptable.mpr accepted), ← edited]
    constructor
    · intro same
      exact ⟨congrArg Proxy.filters same, accepted⟩
    · intro same
      rw [same.1]
  · rw [if_neg (accepted ∘ acceptable.mp)]
    refine iff_of_false (fun same => ?_) fun understood => accepted understood.2
    have length := congrArg (fun proxy => proxy.filters.length) same
    simp at length

/-- A request does what the help of its command says exactly when the command is
understood. -/
theorem respond_carryOut_iff {command : Command} (path : request.target = command.handler.path) :
    (respond proxy request).1 = command.carryOut proxy ↔ command.Understood proxy := by
  cases command with
  | stop =>
      have found : find request.target = some .stop := by
        rw [path]
        decide
      rw [respond, found]
      exact iff_of_true rfl trivial
  | filterList =>
      have found : find request.target = some .filter := by
        rw [path]
        decide
      rw [respond, found, path]
      exact iff_of_true rfl trivial
  | filterRemove idNumber => exact respond_remove_iff path
  | filterAdd filterRegex => exact respond_add_iff path
  | bodiesOff =>
      have found : find request.target = some .bodies := by
        rw [path]
        decide
      rw [respond, found, path]
      exact iff_of_true rfl trivial
  | bodiesOn =>
      have found : find request.target = some .bodies := by
        rw [path]
        decide
      rw [respond, found, path]
      exact iff_of_true rfl trivial

theorem find_stop {command : Command} (found : find command.handler.path = some .stop) :
    command = .stop := by
  have filters (rest : Bytes) : find (ascii "/filter" ++ rest) ≠ some .stop := by
    rw [find_filter_prefixed]
    split
    · exact fun same => by cases same
    · exact fun same => by cases same
  cases command with
  | stop => rfl
  | filterList => exact absurd found (filters (ascii "_list"))
  | filterRemove idNumber => exact absurd found (filters (ascii "_remove/" ++ idNumber))
  | filterAdd filterRegex => exact absurd found (filters (ascii "_add/" ++ filterRegex))
  | bodiesOff => exact absurd found (by decide)
  | bodiesOn => exact absurd found (by decide)

/-! ## Every command of a run -/

/-- The requests that were sent for the commands, in the order in which they arrive. -/
def SentFor (requests : List MessageBase) (commands : List Command) : Prop :=
  List.Forall₂ (fun request command => request.target = command.handler.path) requests commands

theorem SentFor.command {requests : List MessageBase} {commands : List Command}
    (sent : SentFor requests commands) (member : request ∈ requests) :
    ∃ command ∈ commands, request.target = command.handler.path := by
  induction sent with
  | nil => cases member
  | @cons first command requests commands path rest ih =>
      rcases List.mem_cons.mp member with rfl | later
      · exact ⟨command, List.mem_cons_self, path⟩
      · obtain ⟨other, listed, same⟩ := ih later
        exact ⟨other, List.mem_cons_of_mem _ listed, same⟩

theorem afterRequests_carryOut_iff {requests : List MessageBase} {commands : List Command}
    (sent : SentFor requests commands) (proxy : Proxy) :
    (∀ count, afterRequests proxy (requests.take count) =
        Command.carryOutAll proxy (commands.take count)) ↔
      Command.AllUnderstood proxy commands := by
  induction sent generalizing proxy with
  | nil => exact iff_of_true (fun count => by simp [afterRequests, Command.carryOutAll]) trivial
  | @cons request command requests commands path rest ih =>
      have first : (respond proxy request).1 = command.carryOut proxy ↔ command.Understood proxy :=
        respond_carryOut_iff path
      constructor
      · intro followed
        have done : (respond proxy request).1 = command.carryOut proxy := followed 1
        refine ⟨first.mp done, (ih _).mp fun count => ?_⟩
        have later : afterRequests (respond proxy request).1 (requests.take count) =
            Command.carryOutAll (command.carryOut proxy) (commands.take count) :=
          followed (count + 1)
        rw [done] at later
        exact later
      · intro understood count
        cases count with
        | zero => rfl
        | succ count =>
            change afterRequests (respond proxy request).1 (requests.take count) =
              Command.carryOutAll (command.carryOut proxy) (commands.take count)
            rw [first.mpr understood.1]
            exact (ih _).mpr understood.2 count

/-- In every run of the control server whose requests were sent for commands, the
proxy follows the help of the commands, one after another as their requests are
dispatched, exactly when each is understood in the state that the ones before it
leave.  Then the filters in an answer are those of the help too.  The servers are
terminated only after a command to stop. -/
theorem commands_carried_out_iff (methodStr : HttpMethod → Bytes) {initial : Proxy}
    (plain : OnLines initial) {maxConnections : Nat} {serving : Controlling}
    (reached : (Serving.runs (ctlApp methodStr) maxConnections ⟨initial, false, [], []⟩).Reaches
      Transition.unguarded serving)
    {commands : List Command} (sent : SentFor serving.context.requests commands) :
    ((∀ count, afterRequests initial (serving.context.requests.take count) =
        Command.carryOutAll initial (commands.take count)) ↔
      Command.AllUnderstood initial commands) ∧
    (Command.AllUnderstood initial commands →
      serving.context.proxy = Command.carryOutAll initial commands ∧
      ∀ place served, serving.context.log[place]? = some served →
        find served.request.target = some .filter →
        listing served.written.body =
          (Command.carryOutAll initial (commands.take (place + 1))).filters) ∧
    (serving.context.terminated = true → .stop ∈ commands) := by
  have settles : (ctlApp methodStr).Settles (fun _ _ => True) CtlSession.Course :=
    ctlApp_settles methodStr
  have serial := (Serving.reaches_shared settles (ctlApp_shares methodStr initial)
    (Serial.listen initial) (Serving.reaches_guarded reached)).fits
  have carried := afterRequests_carryOut_iff sent initial
  refine ⟨carried, fun understood => ⟨?_, ?_⟩, ?_⟩
  · have last := carried.mpr understood serving.context.requests.length
    rw [List.take_length, List.Forall₂.length_eq sent, List.take_length] at last
    exact serial.proxy.trans last
  · intro place served logged dispatched
    have asked : serving.context.requests[place]? = some served.request := by
      rw [Control.requests, List.getElem?_map, logged]
      rfl
    rw [← carried.mpr understood, afterRequests_take_succ initial asked,
      (serial.answered place served logged).2]
    exact listing_respond (afterRequests_onLines plain _) dispatched
  · intro terminated
    obtain ⟨place, _, request, listed, found⟩ := serial.stopped.mp terminated
    have member : request ∈ serving.context.requests := List.mem_of_getElem? listed
    obtain ⟨command, listed, path⟩ := sent.command member
    rw [path] at found
    exact find_stop found ▸ listed

def stoppingCommands : List Command :=
  [.filterAdd (ascii "a"), .filterList, .stop]

theorem stopping_sent :
    ∃ serving : Controlling, (Serving.runs (ctlApp (fun _ => [])) 2 ⟨⟨[], false⟩, false, [], []⟩).Reaches
        Transition.unguarded serving ∧ SentFor serving.context.requests stoppingCommands := by
  obtain ⟨serving, followed, sent⟩ :
      ∃ serving : Controlling, stopping.foldlM (Transition.attempt Transition.unguarded
          (Serving.Enabled (ctlApp (fun _ => []))) (Serving.step (ctlApp (fun _ => []))))
            (Serving.listen 2 ⟨⟨[], false⟩, false, [], []⟩) = some serving ∧
        SentFor serving.context.requests stoppingCommands :=
    ⟨_, rfl, .cons rfl (.cons rfl (.cons rfl .nil))⟩
  exact ⟨serving, Transition.ofStep_follow (.initial rfl) followed, sent⟩

/-- A filter is added and listed, and the proxy is stopped. -/
theorem stopping_commands_carried_out :
    ∃ serving : Controlling,
      (Serving.runs (ctlApp (fun _ => [])) 2 ⟨⟨[], false⟩, false, [], []⟩).Reaches
        Transition.unguarded serving ∧
      SentFor serving.context.requests stoppingCommands ∧
      serving.context.proxy = ⟨[ascii "a"], false⟩ := by
  obtain ⟨serving, reached, sent⟩ := stopping_sent
  have understood : Command.AllUnderstood ⟨[], false⟩ stoppingCommands :=
    ⟨⟨by decide, List.all_eq_true.mp (by decide)⟩, trivial, trivial, trivial⟩
  have plain : OnLines ⟨[], false⟩ := fun filter member => absurd member List.not_mem_nil
  obtain ⟨_, carried, _⟩ := commands_carried_out_iff _ plain reached sent
  exact ⟨serving, reached, sent, (carried understood).1⟩

end Marvin.SimpleProxy
