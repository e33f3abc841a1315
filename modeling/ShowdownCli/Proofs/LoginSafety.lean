import ShowdownCli.Library.Log
import ShowdownCli.Library.Results
import ShowdownCli.Library.Runs
import ShowdownCli.Client

/-! The login over whole runs of the client. A challenge is used once, a failed
attempt changes nothing but the record of requests, and a successful one leaves
no credential behind. -/

namespace ShowdownCli.PsClient
open Library

/-- The challenge that a step makes the client accept. -/
def accepted (client : PsClient) : Action → Option String
  | .poll msg =>
    if msg.type = "challstr" ∧ ¬ client.loggedIn then
      match msg.args[0]?, msg.args[1]? with
      | some id, some challenge => some (id ++ "|" ++ challenge)
      | _, _ => none
    else none
  | _ => none

def Succeeds (assertions : Nat → String) (client : PsClient) (action : Action) : Prop :=
  action = .tryLogin ∧ (client.tryLogin assertions).1 = true

instance (assertions : Nat → String) (client : PsClient) (action : Action) :
    Decidable (Succeeds assertions client action) := inferInstanceAs (Decidable (_ ∧ _))

/-- What a step does to the challenge: it is used up, or there is a new one. -/
def challenged (assertions : Nat → String) (taken : PsClient × Action) : Option (Option String) :=
  if Succeeds assertions taken.1 taken.2 then some none else (accepted taken.1 taken.2).map some

/-- The challenge that was accepted last, unless a login has used it since. -/
def unused (assertions : Nat → String) (done : List Action) : Option String :=
  (Log.latest (challenged assertions) (Runs.trace (step assertions) {} done)).join

/-- The frame was sent by a login of the run, for the username of that moment and the
answer to a request with the challenge that was unused. -/
def Carries (assertions : Nat → String) (actions : List Action) (index : Nat) (frame : String) : Prop :=
  ∃ done before challenge, done ++ [.tryLogin] <+: actions ∧
    Runs.exec (step assertions) {} done = some before ∧ before.sent.length = index ∧
    unused assertions done = some challenge ∧
    (before.tryLogin assertions).2.sent = before.sent ++ [frame] ∧
    (before.tryLogin assertions).2.asserted =
      before.asserted ++ [(before.username.cString, before.password.cString, challenge)] ∧
    frame = "|/trn " ++ before.username.cString ++ ",0," ++ assertions before.asserted.length

def isChallenge : Action → Bool
  | .poll msg => msg.type = "challstr"
  | _ => false

/-- A frame that logs in. -/
def isTrust (frame : String) : Bool := "|/trn".toList.isPrefixOf frame.toList

/-- No byte of a credential is left, and no challenge. -/
structure Erased (client : PsClient) : Prop where
  username : ∀ c ∈ client.username.chars.toList, c = '\x00'
  password : ∀ c ∈ client.password.chars.toList, c = '\x00'
  challStr : client.challStr = ""

/-- The step neither sets a credential nor brings a challenge. -/
def isIdle : Action → Bool
  | .poll msg => msg.type ≠ "challstr"
  | .tryLogin => true
  | _ => false

/-- Every frame that logs in uses up a challenge and carries the answer to it; a login
that fails keeps everything, and one that succeeds leaves nothing to log in with. -/
structure LoginSafe (assertions : Nat → String) (actions : List Action) (client : PsClient) : Prop where
  counted : client.sent.countP isTrust ≤ actions.countP isChallenge
  carries : ∀ index frame, client.sent[index]? = some frame → Carries assertions actions index frame
  atomic : (client.tryLogin assertions).1 = false →
    (client.tryLogin assertions).2.sent = client.sent ∧
      (client.tryLogin assertions).2.username = client.username ∧
      (client.tryLogin assertions).2.password = client.password ∧
      (client.tryLogin assertions).2.challStr = client.challStr
  erased : ∀ done later before, actions = done ++ .tryLogin :: later →
    Runs.exec (step assertions) {} done = some before → (before.tryLogin assertions).1 = true →
    (∀ action ∈ later, isIdle action = true) → Erased client ∧ client.tryLogin assertions = (false, client)

variable {assertions : Nat → String} {client after : PsClient}

/-! ## One step -/

/-- The frame that a login in this state sends. -/
def trust (assertions : Nat → String) (client : PsClient) : String :=
  "|/trn " ++ client.username.cString ++ ",0," ++ assertions client.asserted.length

def request (client : PsClient) : String × String × String :=
  (client.username.cString, client.password.cString, client.challStr)

theorem tryLogin_cases (assertions : Nat → String) (client : PsClient) :
    (∃ asserted, client.tryLogin assertions = (false, { client with asserted })) ∨
      (client.challStr ≠ "" ∧ client.tryLogin assertions = (true, { client with
        username := .zero
        password := .zero
        challStr := ""
        sent := client.sent ++ [client.trust assertions]
        asserted := client.asserted ++ [client.request] })) := by
  unfold tryLogin
  split
  next => exact Or.inl ⟨client.asserted, rfl⟩
  next challenge =>
    split
    next => exact Or.inl ⟨client.asserted, rfl⟩
    next =>
      simp only
      split
      next => exact Or.inl ⟨_, rfl⟩
      next => exact Or.inr ⟨challenge, rfl⟩

theorem tryLogin_succeeds (succeeds : (client.tryLogin assertions).1 = true) :
    client.challStr ≠ "" ∧ (client.tryLogin assertions).2 = { client with
      username := .zero
      password := .zero
      challStr := ""
      sent := client.sent ++ [client.trust assertions]
      asserted := client.asserted ++ [client.request] } := by
  rcases tryLogin_cases assertions client with ⟨_, failed⟩ | ⟨challenge, success⟩
  · rw [failed] at succeeds
    cases succeeds
  · exact ⟨challenge, by rw [success]⟩

theorem tryLogin_fails (fails : (client.tryLogin assertions).1 = false) :
    ∃ asserted, (client.tryLogin assertions).2 = { client with asserted } := by
  rcases tryLogin_cases assertions client with ⟨asserted, failed⟩ | ⟨_, success⟩
  · exact ⟨asserted, by rw [failed]⟩
  · rw [success] at fails
    cases fails

theorem receive_ok {msg : Message} (received : client.receive msg = .ok after) :
    after.sent = client.sent ∧ after.asserted = client.asserted ∧ after.username = client.username ∧
      after.password = client.password ∧ after.challStr = (client.accepted (.poll msg)).getD client.challStr := by
  unfold receive at received
  split at received
  next challenge =>
    unfold onChallStr at received
    split at received
    next known =>
      cases received
      simp [accepted, known]
    next unknown =>
      obtain ⟨id, first, rest⟩ := except_bind_ok.mp received
      obtain ⟨answer, second, rest⟩ := except_bind_ok.mp rest
      cases rest
      rw [Message.arg_ok] at first second
      simp [accepted, challenge, unknown, first, second]
  next other =>
    have nothing : client.accepted (.poll msg) = none := by simp [accepted, other]
    rw [nothing]
    split at received
    next =>
      cases received
      unfold onUpdateUser
      split
      next => exact ⟨rfl, rfl, rfl, rfl, rfl⟩
      next => split <;> exact ⟨rfl, rfl, rfl, rfl, rfl⟩
    next =>
      cases received
      exact ⟨rfl, rfl, rfl, rfl, rfl⟩

/-- Only a successful login sends a frame, and only it and a challenge change what
the client holds. -/
theorem step_cases {action : Action} (taken : client.step assertions action = some after) :
    (Succeeds assertions client action ∧ client.challStr ≠ "" ∧ after.challStr = "" ∧
        after.sent = client.sent ++ [client.trust assertions]) ∨
      (¬ Succeeds assertions client action ∧ after.challStr = (client.accepted action).getD client.challStr ∧
        after.sent = client.sent) := by
  cases action with
  | poll msg =>
    obtain ⟨sent, _, _, _, challenge⟩ := receive_ok (toOption_some.mp taken)
    exact Or.inr ⟨by simp [Succeeds], challenge, sent⟩
  | setUsername username =>
    cases taken
    refine Or.inr ⟨by simp [Succeeds], ?_, ?_⟩ <;> unfold setUsername <;> split <;> rfl
  | setPassword password =>
    cases taken
    refine Or.inr ⟨by simp [Succeeds], ?_, ?_⟩ <;> unfold setPassword <;> split <;> rfl
  | tryLogin =>
    cases taken
    cases outcome : (client.tryLogin assertions).1 with
    | true =>
      obtain ⟨challenge, same⟩ := tryLogin_succeeds outcome
      exact Or.inl ⟨⟨rfl, outcome⟩, challenge, by rw [same], by rw [same]⟩
    | false =>
      obtain ⟨asserted, same⟩ := tryLogin_fails outcome
      exact Or.inr ⟨by simp [Succeeds, outcome], by rw [same]; rfl, by rw [same]⟩

/-! ## Runs -/

theorem accepted_some {action : Action} {challenge : String} (taken : client.accepted action = some challenge) :
    challenge ≠ "" ∧ isChallenge action = true := by
  cases action with
  | poll msg =>
    simp only [accepted] at taken
    split at taken
    next here =>
      split at taken
      next id answer _ _ =>
        cases taken
        refine ⟨?_, by simp [isChallenge, here]⟩
        intro empty
        have lengths := congrArg String.length empty
        simp at lengths
      next => cases taken
    next => cases taken
  | setUsername | setPassword | tryLogin => cases taken

theorem unused_concat {done : List Action} (reached : Runs.exec (step assertions) {} done = some client)
    (action : Action) : unused assertions (done ++ [action]) =
      if Succeeds assertions client action then none else (client.accepted action).or (unused assertions done) := by
  rw [unused, Runs.trace_concat reached, Log.latest_concat, challenged]
  split
  next => rfl
  next =>
    cases client.accepted action with
    | none => rfl
    | some challenge => rfl

/-- What has happened so far, as far as the client can tell. -/
structure Faithful (assertions : Nat → String) (done : List Action) (client : PsClient) : Prop where
  challenge : unused assertions done = if client.challStr = "" then none else some client.challStr
  counted : client.sent.length + (if client.challStr = "" then 0 else 1) ≤ done.countP isChallenge
  carries : ∀ index frame, client.sent[index]? = some frame → Carries assertions done index frame

theorem Faithful.initial : Faithful assertions [] {} :=
  ⟨rfl, Nat.le_refl 0, fun _ _ sent => by simp at sent⟩

theorem Carries.extend {done : List Action} {index : Nat} {frame : String}
    (carries : Carries assertions done index frame) (action : Action) :
    Carries assertions (done ++ [action]) index frame := by
  obtain ⟨earlier, before, challenge, inside, rest⟩ := carries
  exact ⟨earlier, before, challenge, inside.trans (List.prefix_append ..), rest⟩

/-- The frame a login adds is the one it is meant to be. -/
theorem Carries.login {done : List Action} (reached : Runs.exec (step assertions) {} done = some client)
    (succeeds : (client.tryLogin assertions).1 = true) (challenge : unused assertions done = some client.challStr) :
    Carries assertions (done ++ [.tryLogin]) client.sent.length (client.trust assertions) := by
  have same := (tryLogin_succeeds succeeds).2
  refine ⟨done, client, client.challStr, List.prefix_refl _, reached, rfl, challenge, ?_, ?_, rfl⟩
  · rw [same]
  · rw [same]
    rfl

theorem Faithful.step {done : List Action} {action : Action} (faithful : Faithful assertions done client)
    (reached : Runs.exec (step assertions) {} done = some client)
    (taken : client.step assertions action = some after) : Faithful assertions (done ++ [action]) after := by
  have challenge := unused_concat reached action
  have counted := faithful.counted
  rcases step_cases taken with ⟨succeeds, held, used, sent⟩ | ⟨fails, changed, sent⟩
  · rw [if_pos succeeds] at challenge
    rw [if_neg held] at counted
    refine ⟨by rw [challenge, if_pos used], ?_, ?_⟩
    · rw [sent, if_pos used, List.length_append, List.countP_append]
      exact Nat.le_trans counted (Nat.le_add_right ..)
    · intro index frame here
      rw [sent] at here
      by_cases old : index < client.sent.length
      · rw [List.getElem?_append_left old] at here
        exact (faithful.carries index frame here).extend action
      · rw [List.getElem?_append_right (by omega), List.getElem?_singleton] at here
        split at here
        next last =>
          cases here
          obtain ⟨rfl, success⟩ := succeeds
          obtain rfl : index = client.sent.length := by omega
          exact .login reached success (by rw [faithful.challenge, if_neg held])
        next => cases here
  · rw [if_neg fails] at challenge
    have carries : ∀ index frame, after.sent[index]? = some frame → Carries assertions (done ++ [action]) index frame := by
      intro index frame here
      rw [sent] at here
      exact (faithful.carries index frame here).extend action
    cases brought : client.accepted action with
    | none =>
      rw [brought] at challenge changed
      have same : after.challStr = client.challStr := changed
      refine ⟨by rw [same]; exact challenge.trans faithful.challenge, ?_, carries⟩
      rw [sent, same, List.countP_append]
      exact Nat.le_trans counted (Nat.le_add_right ..)
    | some answer =>
      rw [brought] at challenge changed
      have fresh : after.challStr = answer := changed
      obtain ⟨filled, polled⟩ := accepted_some brought
      refine ⟨by rw [fresh, if_neg filled]; exact challenge, ?_, carries⟩
      rw [sent, fresh, if_neg filled, List.countP_append, List.countP_singleton, if_pos polled]
      omega

theorem faithful {actions : List Action} (reached : Runs.exec (step assertions) {} actions = some client) :
    Faithful assertions actions client := by
  have both := Runs.always (fun done client => Faithful assertions done client ∧
      Runs.exec (step assertions) {} done = some client) ⟨.initial, rfl⟩
    (fun done action before after prior taken => ⟨prior.1.step prior.2 taken, by
      rw [Runs.exec_concat, prior.2]
      exact taken⟩) reached
  exact both.1

/-! ## Erasure -/

theorem Erased.tryLogin (erased : Erased client) : client.tryLogin assertions = (false, client) := by
  unfold PsClient.tryLogin
  rw [if_pos erased.challStr]

theorem Erased.login (succeeds : (client.tryLogin assertions).1 = true) :
    Erased (client.tryLogin assertions).2 := by
  have zero : ∀ c ∈ Credential.zero.chars.toList, c = '\x00' := by
    intro c member
    simpa [Credential.zero] using member
  rw [(tryLogin_succeeds succeeds).2]
  exact ⟨zero, zero, rfl⟩

theorem Erased.step {action : Action} (erased : Erased client) (idle : isIdle action = true)
    (taken : client.step assertions action = some after) : Erased after := by
  cases action with
  | poll msg =>
    obtain ⟨_, _, username, password, challenge⟩ := receive_ok (toOption_some.mp taken)
    have other : msg.type ≠ "challstr" := by simpa [isIdle] using idle
    have nothing : client.accepted (.poll msg) = none := by simp [accepted, other]
    rw [nothing] at challenge
    exact ⟨username ▸ erased.username, password ▸ erased.password, challenge.trans erased.challStr⟩
  | setUsername | setPassword => cases idle
  | tryLogin =>
    cases taken
    rw [erased.tryLogin]
    exact erased

theorem Erased.run {later : List Action} (erased : Erased client) (idle : ∀ action ∈ later, isIdle action = true)
    (reached : Runs.exec (PsClient.step assertions) client later = some after) : Erased after := by
  induction later generalizing client with
  | nil =>
    cases reached
    exact erased
  | cons action rest ih =>
    obtain ⟨middle, taken, reached⟩ := Option.bind_eq_some_iff.mp reached
    have first := erased.step (idle action List.mem_cons_self) taken
    exact ih first (fun other member => idle other (List.mem_cons_of_mem _ member)) reached

theorem login_safe {actions : List Action} (reached : Runs.exec (step assertions) {} actions = some client) :
    LoginSafe assertions actions client where
  counted := Nat.le_trans List.countP_le_length (Nat.le_trans (Nat.le_add_right ..) (faithful reached).counted)
  carries := (faithful reached).carries
  atomic := by
    intro fails
    obtain ⟨asserted, same⟩ := tryLogin_fails fails
    rw [same]
    exact ⟨rfl, rfl, rfl, rfl⟩
  erased := by
    rintro done later before rfl first succeeds idle
    rw [Runs.exec_append, first] at reached
    have erased := (Erased.login succeeds).run idle reached
    exact ⟨erased, erased.tryLogin⟩

/-- A challenge, two credentials and a login that the server accepts. -/
private def entrance : List Action :=
  [.poll { type := "challstr", args := ["4", "abc"] }, .setUsername "ash", .setPassword "pikachu", .tryLogin]

theorem login_safe_entrance :
    ∃ client, Runs.exec (step fun _ => "token") {} entrance = some client ∧ client.sent = ["|/trn ash,0,token"] ∧
      LoginSafe (fun _ => "token") entrance client := by
  have run : (Runs.exec (step fun _ => "token") {} entrance).map PsClient.sent = some ["|/trn ash,0,token"] := by
    decide +kernel
  obtain ⟨client, reached, sent⟩ := Option.map_eq_some_iff.mp run
  exact ⟨client, reached, sent, login_safe reached⟩

end ShowdownCli.PsClient
