import Indexterity.Library.Steps
import Indexterity.NetGuard

/-!
# Verdicts on the dials through a tunnel

`socks.go`, `main.go` of the tunnel service and `#answerDial` of `tunnel/remote.ts`: a SOCKS
connection asks the api over the control connection of its peering, under an id of that peering,
and waits. Commands arrive when they arrive; whoever waits under their id is answered, once.
-/

namespace Indexterity

open Library

universe u

/-- The commands that answer a dial. Ids are the decimal texts of a count, which the model keeps. -/
inductive TunnelCommand
  | dialAllow (id : Nat) (address : List Char)
  | dialDeny (id : Nat) (message : String)
  deriving DecidableEq

def TunnelCommand.id : TunnelCommand → Nat
  | .dialAllow id _ | .dialDeny id _ => id

/-! ## The api's side -/

def socketAddress (address : List Char) (port : Nat) : List Char :=
  if isIP address = 6 then '[' :: address ++ ']' :: ':' :: (toString port).toList
  else address ++ ':' :: (toString port).toList

/-- `#answerDial`, where the tunnel's resolver has answered with `resolved` for the host. -/
def answerDial (allowedIps : List Cidr) (id : Nat) (host : List Char) (port : Nat)
    (resolved : Except String (List (List Char))) : TunnelCommand :=
  match if isIP host ≠ 0 then .ok [host] else resolved with
  | .error message => .dialDeny id message
  | .ok [] => .dialDeny id (String.ofList host ++ " resolves to nothing inside the tunnel")
  | .ok (first :: others) =>
    match (first :: others).forM fun address => assertDialableThroughTunnel address allowedIps with
    | .error message => .dialDeny id message
    | .ok () => .dialAllow id (socketAddress first port)

/-! ## The service's side -/

/-- The answer to a dial. The refusal is empty where the dial is allowed. -/
structure Verdict (α : Type u) where
  address : Option α
  refusal : String

/-- What a command says; an address that does not parse is a refusal. -/
def TunnelCommand.verdict {α : Type u} (parseAddrPort : List Char → Option α) :
    TunnelCommand → Verdict α
  | .dialAllow _ address =>
    match parseAddrPort address with
    | none => ⟨none, "the allowed address is not an ip:port"⟩
    | some address => ⟨some address, ""⟩
  | .dialDeny _ message => ⟨none, if message = "" then "the api refused this dial" else message⟩

/-- A `dialRequest`, and the peering whose control connection it goes out on. -/
structure DialRequest where
  peering : Nat
  id : Nat
  host : List Char
  port : Nat

/-- A command the api has sent on a peering's control connection: the request it answers, and what
was resolved for the host of that. -/
structure SentCommand where
  peering : Nat
  request : Nat
  resolved : Except String (List (List Char))
  command : TunnelCommand

inductive SocksState
  | waiting
  | over
  | dialled
  deriving DecidableEq

/-- Connections are numbered as they ask. `answers` are their channels; `dials` is what has been
dialled through the device of the connection's peering. -/
structure TunnelService (α : Type u) where
  next : Nat → Nat
  waiting : Nat × Nat → Option Nat
  requests : List DialRequest
  answers : Nat → Option (Verdict α)
  state : Nat → SocksState
  sent : List SentCommand
  dials : List (Nat × Option α)

inductive TunnelEvent
  /-- A connection authenticated as a peering asks, or fails to. -/
  | connect (peering : Nat) (host : List Char) (port : Nat) (emitted : Bool)
  | answer (request : Nat) (resolved : Except String (List (List Char)))
  | command (peering : Nat) (command : TunnelCommand)
  /-- The timer of a connection, or its context. -/
  | timeOut (connection : Nat)
  /-- A connection takes the answer from its channel, and lifts its deadline or fails to. -/
  | receive (connection : Nat) (lifted : Bool)

variable {command : TunnelCommand} {peering : Nat} {sent : SentCommand}

namespace TunnelService

variable {α : Type u} (parseAddrPort : List Char → Option α) (allowedIps : Nat → List Cidr)

def new : TunnelService α :=
  ⟨fun _ => 0, fun _ => none, [], fun _ => none, fun _ => .waiting, [], []⟩

def deliver (s : TunnelService α) (peering id : Nat) (answer : Verdict α) : TunnelService α :=
  match s.waiting (peering, id) with
  | none => s
  | some connection =>
    { s with
      waiting := Function.update s.waiting (peering, id) none
      answers := Function.update s.answers connection (some answer) }

def dispatch (s : TunnelService α) (peering : Nat) (command : TunnelCommand) : TunnelService α :=
  s.deliver peering command.id (command.verdict parseAddrPort)

/-- The verdict is taken, or given up: nobody waits under the id any more. -/
def close (s : TunnelService α) (connection : Nat) (request : DialRequest) (state : SocksState) :
    TunnelService α :=
  { s with
    waiting := Function.update s.waiting (request.peering, request.id) none
    state := Function.update s.state connection state }

def step (s : TunnelService α) : TunnelEvent → TunnelService α
  | .connect peering host port emitted =>
    let id := s.next peering + 1
    let opened := { s with next := Function.update s.next peering id }
    if emitted then
      { opened with
        waiting := Function.update s.waiting (peering, id) (some s.requests.length)
        requests := s.requests ++ [⟨peering, id, host, port⟩] }
    else opened
  | .answer request resolved =>
    match s.requests[request]? with
    | none => s
    | some ⟨peering, id, host, port⟩ =>
      if request ∈ s.sent.map SentCommand.request then s
      else
        { s with
          sent := s.sent ++ [⟨peering, request, resolved,
            answerDial (allowedIps peering) id host port resolved⟩] }
  | .command peering command => s.dispatch parseAddrPort peering command
  | .timeOut connection =>
    match s.requests[connection]?, s.state connection with
    | some request, .waiting => s.close connection request .over
    | _, _ => s
  | .receive connection lifted =>
    match s.requests[connection]?, s.state connection, s.answers connection with
    | some request, .waiting, some answer =>
      if answer.refusal ≠ "" ∨ lifted = false then s.close connection request .over
      else
        { s.close connection request .dialled with
          dials := s.dials ++ [(connection, answer.address)] }
    | _, _, _ => s

/-- A command that arrives was sent by the api on that control connection, at any time before, or
nobody waits under its id. -/
def Arrives (s : TunnelService α) : TunnelEvent → Prop
  | .command peering command =>
    (∃ sent ∈ s.sent, sent.peering = peering ∧ sent.command = command) ∨
      s.waiting (peering, command.id) = none
  | _ => True

def Allows (s : TunnelService α) (sent : SentCommand) (connection : Nat) (address : Option α) :
    Prop :=
  sent ∈ s.sent ∧ sent.request = connection ∧ ∃ request, s.requests[connection]? = some request ∧
    sent.peering = request.peering ∧ ∃ text, sent.command = .dialAllow request.id text ∧
      parseAddrPort text = address ∧ address ≠ none

/-- What a `dialAllow` carries was resolved for the requested host, and is dialable through the
tunnel of its peering with everything that was resolved beside it. -/
def Vetted (s : TunnelService α) (sent : SentCommand) : Prop :=
  ∀ id text, sent.command = .dialAllow id text →
    ∃ request, s.requests[sent.request]? = some request ∧ sent.peering = request.peering ∧
      ∃ first others, (if isIP request.host ≠ 0 then first :: others = [request.host]
          else sent.resolved = .ok (first :: others)) ∧
        text = socketAddress first request.port ∧
        ∀ address ∈ first :: others,
          assertDialableThroughTunnel address (allowedIps sent.peering) = .ok ()

/-- Each dial is of a connection of its own that was not given up or refused, and is allowed by a
command of its own; and all that allows is vetted. -/
structure Isolated (s : TunnelService α) : Prop where
  dials_nodup : (s.dials.map Prod.fst).Nodup
  dialled : ∀ dial ∈ s.dials, s.state dial.1 = .dialled
  allowed : ∀ dial ∈ s.dials, ∃ sent, s.Allows parseAddrPort sent dial.1 dial.2
  sent_nodup : (s.sent.map SentCommand.request).Nodup
  vetted : ∀ sent ∈ s.sent, s.Vetted allowedIps sent

structure Matched (s : TunnelService α) : Prop extends Isolated parseAddrPort allowedIps s where
  id_le : ∀ (c : Nat) (request : DialRequest), s.requests[c]? = some request → request.id ≤ s.next request.peering
  id_inj : ∀ (c d : Nat) (first second : DialRequest), s.requests[c]? = some first →
    s.requests[d]? = some second → first.peering = second.peering → first.id = second.id → c = d
  held : ∀ peering id c, s.waiting (peering, id) = some c →
    ∃ request, s.requests[c]? = some request ∧ request.peering = peering ∧ request.id = id
  answering : ∀ sent ∈ s.sent, ∃ request, s.requests[sent.request]? = some request ∧
    sent.peering = request.peering ∧ sent.command.id = request.id
  answered : ∀ c answer, s.answers c = some answer → answer.refusal = "" →
    ∃ sent, s.Allows parseAddrPort sent c answer.address

variable {parseAddrPort allowedIps} {s : TunnelService α}

theorem id_answerDial (cidrs : List Cidr) (id : Nat) (host : List Char) (port : Nat)
    (resolved : Except String (List (List Char))) :
    (answerDial cidrs id host port resolved).id = id := by
  unfold answerDial
  split
  · rfl
  · rfl
  · split <;> rfl

theorem of_answerDial {cidrs : List Cidr} {id id' port : Nat} {host text : List Char}
    {resolved : Except String (List (List Char))}
    (h : answerDial cidrs id host port resolved = .dialAllow id' text) :
    ∃ first others, (if isIP host ≠ 0 then first :: others = [host]
        else resolved = .ok (first :: others)) ∧ text = socketAddress first port ∧
      ∀ address ∈ first :: others, assertDialableThroughTunnel address cidrs = .ok () := by
  unfold answerDial at h
  split at h
  · cases h
  · cases h
  · rename_i first others hresolved
    split at h
    · cases h
    · rename_i hall
      cases h
      refine ⟨first, others, ?_, rfl, ?_⟩
      · split_ifs with hip <;> simp_all
      · exact forM_eq_ok_iff.mp hall

theorem of_verdict (h : (command.verdict parseAddrPort).refusal = "") :
    ∃ text, command = .dialAllow command.id text ∧
      parseAddrPort text = (command.verdict parseAddrPort).address ∧
      (command.verdict parseAddrPort).address ≠ none := by
  unfold TunnelCommand.verdict at h ⊢
  split at h
  · rename_i id text
    split at h
    · simp at h
    · rename_i address haddress
      exact ⟨text, rfl, by simp [haddress], by simp⟩
  · split_ifs at h with hempty
    · simp at h
    · exact absurd h hempty

variable {t : TunnelService α}

theorem Allows.mono {c : Nat} {address : Option α}
    (hrequests : ∀ (c : Nat) request, s.requests[c]? = some request → t.requests[c]? = some request)
    (hsent : t.sent = s.sent) (h : s.Allows parseAddrPort sent c address) :
    t.Allows parseAddrPort sent c address := by
  obtain ⟨hmem, hrequest, request, hfound, hrest⟩ := h
  exact ⟨hsent ▸ hmem, hrequest, request, hrequests c request hfound, hrest⟩

theorem Vetted.mono
    (hrequests : ∀ (c : Nat) request, s.requests[c]? = some request → t.requests[c]? = some request)
    (h : s.Vetted allowedIps sent) : t.Vetted allowedIps sent := by
  intro id text hcommand
  obtain ⟨request, hfound, hrest⟩ := h id text hcommand
  exact ⟨request, hrequests _ request hfound, hrest⟩

namespace Matched

variable (h : Matched parseAddrPort allowedIps s)
include h

theorem close (c : Nat) (request : DialRequest) {state : SocksState}
    (hwaiting : s.state c = .waiting) :
    Matched parseAddrPort allowedIps (s.close c request state) :=
  { h with
    dialled := fun dial hdial => by
      have hne : dial.1 ≠ c := fun heq => by
        have hdialled := h.dialled dial hdial
        rw [heq, hwaiting] at hdialled
        cases hdialled
      exact (Function.update_of_ne hne _ _).trans (h.dialled dial hdial)
    held := fun peering id d hheld => by
      simp only [TunnelService.close, Function.update_apply] at hheld
      split at hheld
      · cases hheld
      · exact h.held peering id d hheld }

theorem deliver {id : Nat} {answer : Verdict α}
    (hanswer : ∀ c request, s.requests[c]? = some request → request.peering = peering →
      request.id = id → answer.refusal = "" → ∃ sent, s.Allows parseAddrPort sent c answer.address) :
    Matched parseAddrPort allowedIps (s.deliver peering id answer) := by
  unfold TunnelService.deliver
  split
  · exact h
  · rename_i c hc
    obtain ⟨request, hrequest, hpeering, hid⟩ := h.held peering id c hc
    exact { h with
      held := fun peering' id' d hheld => by
        simp only [Function.update_apply] at hheld
        split at hheld
        · cases hheld
        · exact h.held peering' id' d hheld
      answered := fun d answer' hanswer' hrefusal => by
        simp only [Function.update_apply] at hanswer'
        split at hanswer'
        · rename_i heq
          cases hanswer'
          exact heq ▸ hanswer c request hrequest hpeering hid hrefusal
        · exact h.answered d answer' hanswer' hrefusal }

theorem dispatch (harrives : s.Arrives (.command peering command)) :
    Matched parseAddrPort allowedIps (s.dispatch parseAddrPort peering command) := by
  rcases harrives with ⟨sent, hsent, rfl, rfl⟩ | hnobody
  · -- the request the command answers is the one that waits under its id
    obtain ⟨request, hrequest, hpeering, hid⟩ := h.answering sent hsent
    refine h.deliver fun c other hother hpeering' hid' hrefusal => ?_
    obtain ⟨text, hcommand, haddress, hsome⟩ := of_verdict hrefusal
    refine ⟨sent, hsent, ?_, other, hother, hpeering'.symm, text, hid' ▸ hcommand, haddress, hsome⟩
    exact h.id_inj _ _ _ _ hrequest hother (hpeering.symm.trans hpeering'.symm)
      (hid.symm.trans hid'.symm)
  · rwa [TunnelService.dispatch, TunnelService.deliver, hnobody]

theorem connect (peering : Nat) (host : List Char) (port : Nat) (emitted : Bool) :
    Matched parseAddrPort allowedIps
      (s.step parseAddrPort allowedIps (.connect peering host port emitted)) := by
  have hnext : ∀ p, s.next p ≤ Function.update s.next peering (s.next peering + 1) p := by
    intro p
    rw [Function.update_apply]
    split_ifs with hp
    · exact hp ▸ Nat.le_succ _
    · exact le_rfl
  dsimp only [step]
  split
  · have hrequests : ∀ c request, s.requests[c]? = some request →
        (s.requests ++ [⟨peering, s.next peering + 1, host, port⟩])[c]? = some request :=
      fun c request hc => by
        rw [List.getElem?_append_left (List.getElem?_eq_some_iff.mp hc).1, hc]
    have hcases : ∀ c request, (s.requests ++ [⟨peering, s.next peering + 1, host, port⟩])[c]? =
        some request → s.requests[c]? = some request ∨ c = s.requests.length ∧
          request = ⟨peering, s.next peering + 1, host, port⟩ := by
      intro c request hc
      grind
    exact {
      dials_nodup := h.dials_nodup
      dialled := h.dialled
      allowed := fun dial hdial => (h.allowed dial hdial).imp fun _ =>
        Allows.mono hrequests rfl
      sent_nodup := h.sent_nodup
      vetted := fun sent hsent => (h.vetted sent hsent).mono hrequests
      id_le := fun c request hc => by
        rcases hcases c request hc with hold | ⟨-, rfl⟩
        · exact (h.id_le c request hold).trans (hnext _)
        · simp
      id_inj := fun c d first second hc hd hpeering hid => by
        rcases hcases c first hc with hc | ⟨rfl, rfl⟩ <;> rcases hcases d second hd with hd | ⟨rfl, rfl⟩
        · exact h.id_inj c d first second hc hd hpeering hid
        · have hle := h.id_le c first hc
          rw [hpeering, hid] at hle
          exact absurd hle (Nat.not_succ_le_self _)
        · have hle := h.id_le d second hd
          rw [← hpeering, ← hid] at hle
          exact absurd hle (Nat.not_succ_le_self _)
        · rfl
      held := fun peering' id c hheld => by
        simp only [Function.update_apply] at hheld
        split at hheld
        · rename_i heq
          cases heq
          cases hheld
          exact ⟨_, List.getElem?_concat_length, rfl, rfl⟩
        · obtain ⟨request, hrequest, hrest⟩ := h.held peering' id c hheld
          exact ⟨request, hrequests c request hrequest, hrest⟩
      answering := fun sent hsent => by
        obtain ⟨request, hrequest, hrest⟩ := h.answering sent hsent
        exact ⟨request, hrequests _ request hrequest, hrest⟩
      answered := fun c answer hanswer hrefusal =>
        (h.answered c answer hanswer hrefusal).imp fun _ =>
          Allows.mono hrequests rfl }
  · exact { h with id_le := fun c request hc => (h.id_le c request hc).trans (hnext _) }

theorem answer (c : Nat) (resolved : Except String (List (List Char))) :
    Matched parseAddrPort allowedIps (s.step parseAddrPort allowedIps (.answer c resolved)) := by
  dsimp only [step]
  split
  · exact h
  rename_i peering id host port hrequest
  split
  · exact h
  rename_i hunanswered
  have hsent : s.sent ⊆ s.sent ++ [⟨peering, c, resolved,
      answerDial (allowedIps peering) id host port resolved⟩] := List.subset_append_left _ _
  exact { h with
    allowed := fun dial hdial => by
      obtain ⟨sent, hmem, hrest⟩ := h.allowed dial hdial
      exact ⟨sent, hsent hmem, hrest⟩
    sent_nodup := by
      rw [List.map_append]
      exact h.sent_nodup.append (List.nodup_singleton _) (by simpa using hunanswered)
    vetted := fun sent hmem => by
      rcases List.mem_append.mp hmem with hold | hnew
      · exact h.vetted sent hold
      · rw [List.mem_singleton.mp hnew]
        exact fun id' text hcommand => ⟨_, hrequest, rfl, of_answerDial hcommand⟩
    answering := fun sent hmem => by
      rcases List.mem_append.mp hmem with hold | hnew
      · exact h.answering sent hold
      · rw [List.mem_singleton.mp hnew]
        exact ⟨_, hrequest, rfl, id_answerDial _ _ _ _ _⟩
    answered := fun d answer hanswer hrefusal => by
      obtain ⟨sent, hmem, hrest⟩ := h.answered d answer hanswer hrefusal
      exact ⟨sent, hsent hmem, hrest⟩ }

theorem step {event : TunnelEvent} (harrives : s.Arrives event) :
    Matched parseAddrPort allowedIps (s.step parseAddrPort allowedIps event) := by
  cases event with
  | connect peering host port emitted => exact h.connect peering host port emitted
  | answer c resolved => exact h.answer c resolved
  | command peering command => exact h.dispatch harrives
  | timeOut c =>
    dsimp only [TunnelService.step]
    split
    · rename_i hwaiting
      exact h.close c _ hwaiting
    · exact h
  | receive c lifted =>
    dsimp only [TunnelService.step]
    split
    · rename_i request answer hrequest hwaiting hanswer
      split
      · exact h.close c request hwaiting
      · rename_i hrefusal
        have hclosed := @Matched.close _ _ _ s h c request .dialled hwaiting
        have hunseen : ∀ address, (c, address) ∉ s.dials := fun address hdial => by
          have hdialled := h.dialled _ hdial
          rw [hwaiting] at hdialled
          cases hdialled
        push Not at hrefusal
        exact { hclosed with
          dials_nodup := by
            rw [List.map_append]
            exact h.dials_nodup.append (List.nodup_singleton _) (by simpa using hunseen)
          dialled := fun dial hdial => by
            rcases List.mem_append.mp hdial with hold | hnew
            · exact hclosed.dialled dial hold
            · rw [List.mem_singleton.mp hnew]
              exact Function.update_self _ _ _
          allowed := fun dial hdial => by
            rcases List.mem_append.mp hdial with hold | hnew
            · exact h.allowed dial hold
            · rw [List.mem_singleton.mp hnew]
              exact h.answered c answer hanswer hrefusal.1 }
    · exact h

end Matched

theorem matched_new : Matched parseAddrPort allowedIps new where
  dials_nodup := List.nodup_nil
  dialled := nofun
  allowed := nofun
  sent_nodup := List.nodup_nil
  vetted := nofun
  id_le := nofun
  id_inj := nofun
  held := nofun
  answering := nofun
  answered := nofun

/-- At every point of every run in which the commands come from the api or find nobody waiting:
what a connection dials was allowed by a command the api sent on the control connection of its
peering in answer to its own request, each such command has led to one dial at most, a connection
that was refused or gave up has dialled nothing, and whatever the api allows is vetted. -/
theorem dials_isolated (parseAddrPort : List Char → Option α) (allowedIps : Nat → List Cidr)
    (events : List TunnelEvent)
    (harrives : Along (step parseAddrPort allowedIps) Arrives new events) :
    Along (step parseAddrPort allowedIps) (fun s event =>
      Isolated parseAddrPort allowedIps (s.step parseAddrPort allowedIps event)) new events :=
  Along.of_inv (fun _ _ h => h.step) (fun _ _ h harrives => (h.step harrives).toIsolated)
    matched_new harrives

instance (s : TunnelService α) (event : TunnelEvent) : Decidable (s.Arrives event) := by
  cases event <;> (unfold Arrives; infer_instance)

/-- Two customers in one address range ask under the same id. The first is allowed, and told so
twice; the second is refused. -/
def twoCustomers : List TunnelEvent :=
  [.connect 0 "10.0.0.5".toList 5432 true, .connect 1 "10.0.0.5".toList 5432 true,
    .answer 0 (.ok []), .answer 1 (.ok []),
    .command 0 (.dialAllow 1 "10.0.0.5:5432".toList),
    .command 0 (.dialAllow 1 "10.0.0.5:5432".toList), .receive 0 true, .timeOut 1]

theorem twoCustomers_isolated :
    let allowedIps := fun peering => if peering = 0 then [⟨"10.0.0.0".toList, 8⟩] else []
    (twoCustomers.foldl (step some allowedIps) new).dials = [(0, some "10.0.0.5:5432".toList)] ∧
      Along (step some allowedIps) (fun s event =>
        Isolated some allowedIps (s.step some allowedIps event)) new twoCustomers :=
  ⟨by decide +kernel, dials_isolated some _ twoCustomers (by decide +kernel)⟩

end TunnelService

end Indexterity
