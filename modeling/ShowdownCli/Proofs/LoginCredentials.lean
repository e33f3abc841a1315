import ShowdownCli.Proofs.LoginSafety
import ShowdownCli.Proofs.PasswordLog

/-! The credentials of the requests to the login server. What a buffer holds is the token
that was put in it last, as far as it fits. -/

namespace ShowdownCli

namespace Credential

/-- The texts that a buffer can hold. -/
def Fits (text : String) : Prop := text.toList.length ≤ 31 ∧ '\x00' ∉ text.toList

instance (text : String) : Decidable (Fits text) := inferInstanceAs (Decidable (_ ∧ _))

variable (buffer : Credential) (text : String)

theorem head_toList : buffer.chars.toList.head? = some buffer.chars.head := by
  rw [List.head?_eq_getElem?, List.getElem?_eq_getElem (by simp), Vector.getElem_toList]
  rfl

theorem set_toList : (buffer.set text).chars.toList =
    text.toList.take 31 ++ '\x00' :: buffer.chars.toList.drop (min text.toList.length 31 + 1) := by
  apply List.ext_getElem
  · simp only [Vector.length_toList, List.length_append, List.length_take, List.length_cons, List.length_drop]
    omega
  · intro i inside _
    rw [Vector.length_toList] at inside
    simp only [Credential.set, Vector.getElem_toList, Vector.getElem_ofFn]
    by_cases taken : i < min text.toList.length 31
    · have here : i < (text.toList.take 31).length := by
        rw [List.length_take]
        omega
      rw [List.getElem_append_left here, if_pos taken, List.getElem_take, List.getD_eq_getElem?_getD,
        List.getElem?_eq_getElem (by omega), Option.getD_some]
    · have there : (text.toList.take 31).length ≤ i := by
        rw [List.length_take]
        omega
      rw [List.getElem_append_right there, if_neg taken, List.getElem_cons]
      simp only [List.length_take, Nat.min_comm 31]
      by_cases last : i = min text.toList.length 31
      · rw [if_pos last, dif_pos (by omega)]
      · have later : min text.toList.length 31 + 1 + (i - min text.toList.length 31 - 1) = i := by omega
        rw [if_neg last, dif_neg (by omega), List.getElem_drop, Vector.getElem_toList]
        simp only [later]
        rfl

/-- Nothing that was in the buffer before is read. -/
theorem cString_set : (buffer.set text).cString = String.ofList ((text.toList.take 31).takeWhile (· ≠ '\x00')) := by
  rw [cString, set_toList, List.takeWhile_append]
  split
  next whole => rw [List.takeWhile_cons_of_neg (by simp), List.append_nil, (List.takeWhile_prefix _).eq_of_length whole]
  next => rfl

theorem cString_set_iff : (buffer.set text).cString = text ↔ Fits text := by
  rw [cString_set, ← String.toList_inj, String.toList_ofList]
  constructor
  · intro same
    have lengths := congrArg List.length same
    have shorter := (List.takeWhile_prefix (fun c => decide (c ≠ '\x00')) (l := text.toList.take 31)).length_le
    rw [lengths, List.length_take] at shorter
    have fits : text.toList.length ≤ 31 := by omega
    rw [List.take_of_length_le fits, List.takeWhile_eq_self_iff] at same
    exact ⟨fits, fun zero => by simpa using same _ zero⟩
  · rintro ⟨fits, nonzero⟩
    rw [List.take_of_length_le fits, List.takeWhile_eq_self_iff]
    intro c member
    exact decide_eq_true fun zero => nonzero (zero ▸ member)

end Credential

namespace LoginOverlay
open Library
open Debug (Input startsBlank set_blank)
open Debug.Session (release)

variable {world : World} {this : Nat} {start login after : LoginOverlay × PsClient} {inputs done : List Input}
  {input : Input} {token : String}

/-- The token that a step makes `set_username` accept. -/
def nameTaken : (LoginOverlay × PsClient) × Input → Option String
  | ((overlay, client), .command cmd) =>
    match tokenize cmd with
    | [token] => if overlay.enteredUsername = false ∧ (client.setUsername token).1 = true then some token else none
    | _ => none
  | _ => none

/-- The token that a step makes `set_password` accept. -/
def passTaken : (LoginOverlay × PsClient) × Input → Option String
  | ((overlay, client), .command cmd) =>
    match tokenize cmd with
    | [token] => if overlay.enteredUsername = true ∧ (client.setPassword token).1 = true then some token else none
    | _ => none
  | _ => none

/-- The user name that was accepted last. -/
def username (world : World) (this : Nat) (start : LoginOverlay × PsClient) (inputs : List Input) : Option String :=
  Log.latest nameTaken (Runs.trace (release world this) start inputs)

/-- The password that was accepted last. -/
def password (world : World) (this : Nat) (start : LoginOverlay × PsClient) (inputs : List Input) : Option String :=
  Log.latest passTaken (Runs.trace (release world this) start inputs)

/-- The step takes a password, and there is a challenge and all that is asked of the credentials. -/
def Asks (login : LoginOverlay × PsClient) (input : Input) : Prop :=
  ∃ token, passTaken (login, input) = some token ∧ login.2.challStr ≠ "" ∧
    login.2.username.chars.toList.head? ≠ some '\x00' ∧ startsBlank token = false

theorem tryLogin_username (assertions : Nat → String) (client : PsClient) :
    (client.tryLogin assertions).2.username = client.username ∨ (client.tryLogin assertions).2.username = .zero := by
  rcases PsClient.tryLogin_cases assertions client with ⟨_, failed⟩ | ⟨_, success⟩
  · exact Or.inl (by rw [failed])
  · exact Or.inr (by rw [success])

theorem tryLogin_asserted (assertions : Nat → String) (client : PsClient) :
    (client.challStr ≠ "" ∧ client.username.chars.head ≠ '\x00' ∧ client.password.chars.head ≠ '\x00' →
      (client.tryLogin assertions).2.asserted = client.asserted ++ [client.request]) ∧
    (¬ (client.challStr ≠ "" ∧ client.username.chars.head ≠ '\x00' ∧ client.password.chars.head ≠ '\x00') →
      (client.tryLogin assertions).2.asserted = client.asserted) := by
  simp only [PsClient.tryLogin, Debug.chars_head]
  by_cases unchallenged : client.challStr = ""
  · simp [unchallenged]
  by_cases blank : client.username.chars.head = '\x00' ∨ client.password.chars.head = '\x00'
  · simp only [if_neg unchallenged, if_pos blank]
    refine ⟨fun asks => ?_, fun _ => trivial⟩
    exact absurd blank (not_or.mpr asks.2)
  · simp only [if_neg unchallenged, if_neg blank]
    refine ⟨fun _ => ?_, fun silent => ?_⟩
    · split <;> rfl
    · exact absurd ⟨unchallenged, not_or.mp blank⟩ silent

theorem onCommand_password {overlay : LoginOverlay} {client : PsClient} {cmd : String}
    (named : overlay.enteredUsername = true) (tokens : tokenize cmd = [token])
    (accepted : Credential.accepts token = true) : (overlay.onCommand world this client cmd).client =
      (PsClient.tryLogin world.assertions { client with password := client.password.set token }).2 := by
  simp only [onCommand, tokens, named, not_true, if_false, PsClient.setPassword, if_pos accepted]
  cases PsClient.tryLogin world.assertions { client with password := client.password.set token } with
  | mk success client => cases success <;> rfl

/-- What a step does to the name, and which request it makes. -/
theorem release_cases (taken : release world this login input = some after) :
    (nameTaken (login, input) = none ∧ passTaken (login, input) = none ∧ after.1 = login.1 ∧
      after.2.username = login.2.username ∧ after.2.asserted = login.2.asserted) ∨
    (∃ token, nameTaken (login, input) = some token ∧ passTaken (login, input) = none ∧
      after.2.username = login.2.username.set token ∧ after.2.asserted = login.2.asserted) ∨
    ∃ token, nameTaken (login, input) = none ∧ passTaken (login, input) = some token ∧ login.1.enteredUsername = true ∧
      (after.2.username = login.2.username ∨ after.2.username = .zero) ∧
      (Asks login input → after.2.asserted = login.2.asserted ++
        [(login.2.username.cString, (login.2.password.set token).cString, login.2.challStr)]) ∧
      (¬ Asks login input → after.2.asserted = login.2.asserted) := by
  obtain ⟨overlay, client⟩ := login
  cases input with
  | poll msg =>
    obtain ⟨next, received, rfl⟩ := Option.map_eq_some_iff.mp taken
    obtain ⟨_, asserted, username, _⟩ := PsClient.receive_ok (toOption_some.mp received)
    exact Or.inl ⟨rfl, rfl, rfl, username, asserted⟩
  | command cmd =>
    cases taken
    cases tokens : tokenize cmd with
    | nil =>
      refine Or.inl ?_
      simp [nameTaken, passTaken, onCommand, tokens]
    | cons token rest =>
      cases rest with
      | cons _ _ =>
        refine Or.inl ?_
        simp [nameTaken, passTaken, onCommand, tokens]
      | nil =>
        cases named : overlay.enteredUsername with
        | false =>
          by_cases accepted : Credential.accepts token = true
          · refine Or.inr (Or.inl ⟨token, ?_⟩)
            simp [nameTaken, passTaken, onCommand, tokens, named, PsClient.setUsername, accepted]
          · refine Or.inl ?_
            simp [nameTaken, passTaken, onCommand, tokens, named, PsClient.setUsername, accepted]
        | true =>
          by_cases accepted : Credential.accepts token = true
          · have taken : passTaken ((overlay, client), .command cmd) = some token := by
              simp [passTaken, tokens, named, PsClient.setPassword, accepted]
            have asking : Asks (overlay, client) (.command cmd) ↔ client.challStr ≠ "" ∧
                client.username.chars.head ≠ '\x00' ∧ (client.password.set token).chars.head ≠ '\x00' := by
              simp only [Asks, taken, Option.some.injEq, exists_eq_left', ne_eq, set_blank accepted,
                Bool.not_eq_true, Credential.head_toList]
            obtain ⟨asks, silent⟩ := tryLogin_asserted world.assertions
              { client with password := client.password.set token }
            refine Or.inr (Or.inr ⟨token, ?_, taken, rfl, ?_, ?_, ?_⟩)
            · simp [nameTaken, tokens, named]
            · rw [onCommand_password named tokens accepted]
              exact tryLogin_username ..
            · rw [onCommand_password named tokens accepted, asking]
              exact asks
            · rw [onCommand_password named tokens accepted, asking]
              exact silent
          · refine Or.inl ?_
            simp [nameTaken, passTaken, onCommand, tokens, named, PsClient.setPassword, accepted]

/-- Once a user name was entered, the client has what fits of the one that was accepted last,
or it has none. -/
def Named (world : World) (this : Nat) (start : LoginOverlay × PsClient) (done : List Input)
    (login : LoginOverlay × PsClient) : Prop :=
  login.1.enteredUsername = true → ∃ token, username world this start done = some token ∧
    ((∃ buffer : Credential, login.2.username = buffer.set token) ∨ login.2.username = .zero)

theorem username_concat (reached : Runs.exec (release world this) start done = some login) (input : Input) :
    username world this start (done ++ [input]) = (nameTaken (login, input)).or (username world this start done) := by
  rw [username, Runs.trace_concat reached, Log.latest_concat, username]

theorem password_concat (reached : Runs.exec (release world this) start done = some login) (input : Input) :
    password world this start (done ++ [input]) = (passTaken (login, input)).or (password world this start done) := by
  rw [password, Runs.trace_concat reached, Log.latest_concat, password]

theorem Named.step (held : Named world this start done login)
    (reached : Runs.exec (release world this) start done = some login)
    (taken : release world this login input = some after) : Named world this start (done ++ [input]) after := by
  intro entered
  rw [username_concat reached]
  rcases release_cases taken with ⟨unnamed, _, same, kept, _⟩ | ⟨token, named, _, set, _⟩ |
      ⟨_, unnamed, _, before, kept, _⟩
  · obtain ⟨token, latest, buffer⟩ := held (same ▸ entered)
    exact ⟨token, by rw [unnamed, latest]; rfl, kept ▸ buffer⟩
  · exact ⟨token, by rw [named]; rfl, Or.inl ⟨_, set⟩⟩
  · obtain ⟨token, latest, buffer⟩ := held before
    refine ⟨token, by rw [unnamed, latest]; rfl, ?_⟩
    rcases kept with kept | erased
    · exact kept ▸ buffer
    · exact Or.inr erased

theorem named {isSignup : Bool} {client : PsClient}
    (reached : Runs.exec (release world this) ({ isSignup }, client) done = some login) :
    Named world this ({ isSignup }, client) done login := by
  have both := Runs.always (fun done login => Named world this ({ isSignup }, client) done login ∧
      Runs.exec (release world this) ({ isSignup }, client) done = some login)
    ⟨fun entered => absurd entered Bool.false_ne_true, rfl⟩
    (fun done input before after prior taken => ⟨prior.1.step prior.2 taken, by
      rw [Runs.exec_concat, prior.2]
      exact taken⟩) reached
  exact both.1

/-- The requests of the last step are made with the tokens that were accepted last. -/
def Unaltered (world : World) (this : Nat) (start : LoginOverlay × PsClient) (done : List Input) (input : Input)
    (login : LoginOverlay × PsClient) : Prop :=
  ∀ after, release world this login input = some after →
    ∀ request ∈ after.2.asserted.drop login.2.asserted.length,
      username world this start (done ++ [input]) = some request.1 ∧
        password world this start (done ++ [input]) = some request.2.1

/-- If the step makes a request, both of these tokens fit. -/
def Fitting (world : World) (this : Nat) (start : LoginOverlay × PsClient) (done : List Input) (input : Input)
    (login : LoginOverlay × PsClient) : Prop :=
  Asks login input → ∀ token, username world this start (done ++ [input]) = some token ∨
    password world this start (done ++ [input]) = some token → Credential.Fits token

/-- A step that asks makes one request, with what the buffers hold. -/
theorem asks_request (asks : Asks login input) : ∃ after token, release world this login input = some after ∧
    nameTaken (login, input) = none ∧ passTaken (login, input) = some token ∧ login.1.enteredUsername = true ∧
    after.2.asserted = login.2.asserted ++
      [(login.2.username.cString, (login.2.password.set token).cString, login.2.challStr)] := by
  obtain ⟨token, entered, _⟩ := id asks
  have taken : ∃ after, release world this login input = some after := by
    cases input with
    | poll msg => cases entered
    | command cmd => exact ⟨_, rfl⟩
  obtain ⟨after, taken⟩ := taken
  rcases release_cases taken with ⟨_, silent, _⟩ | ⟨_, _, silent, _⟩ | ⟨other, unnamed, same, before, _, requests, _⟩
  · rw [silent] at entered
    cases entered
  · rw [silent] at entered
    cases entered
  · exact ⟨after, other, taken, unnamed, same, before, requests asks⟩

theorem silent_request (silent : ¬ Asks login input) (taken : release world this login input = some after) :
    after.2.asserted = login.2.asserted := by
  rcases release_cases taken with ⟨_, _, _, _, same⟩ | ⟨_, _, _, _, same⟩ | ⟨_, _, _, _, _, _, same⟩
  · exact same
  · exact same
  · exact same silent

theorem unaltered_iff (held : Named world this start done login)
    (reached : Runs.exec (release world this) start done = some login) :
    Unaltered world this start done input login ↔ Fitting world this start done input login := by
  by_cases asks : Asks login input
  · obtain ⟨after, token, taken, unnamed, entered, before, requested⟩ := @asks_request world this _ _ asks
    obtain ⟨name, latest, buffer⟩ := held before
    have filled : ∃ buffer : Credential, login.2.username = buffer.set name := by
      obtain ⟨_, _, _, nonblank, _⟩ := asks
      refine buffer.resolve_right fun erased => nonblank ?_
      rw [erased]
      rfl
    obtain ⟨buffer, filled⟩ := filled
    have request : Unaltered world this start done input login ↔
        name = (buffer.set name).cString ∧ token = (login.2.password.set token).cString := by
      simp only [Unaltered, taken, Option.some.injEq, forall_eq', requested, List.drop_left, List.mem_singleton,
        forall_eq, username_concat reached, password_concat reached, unnamed, entered, latest, Option.none_or,
        Option.some_or, filled]
    rw [request, eq_comm, Credential.cString_set_iff, eq_comm, Credential.cString_set_iff]
    simp only [Fitting, asks, true_imp_iff, username_concat reached, password_concat reached, unnamed, entered, latest,
      Option.none_or, Option.some_or, Option.some.injEq]
    constructor
    · rintro ⟨first, second⟩ _ (rfl | rfl)
      · exact first
      · exact second
    · intro both
      exact ⟨both name (Or.inl rfl), both token (Or.inr rfl)⟩
  · refine iff_of_true ?_ fun asking => absurd asking asks
    intro after taken request member
    rw [silent_request asks taken, List.drop_length] at member
    cases member

/-- Every request of a run carries the tokens that were accepted last exactly when they fit. -/
theorem requests_unaltered_iff (isSignup : Bool) (client : PsClient) (inputs : List Input) :
    (∀ done input, done ++ [input] <+: inputs →
      ∀ login, Runs.exec (release world this) ({ isSignup }, client) done = some login →
        Unaltered world this ({ isSignup }, client) done input login) ↔
    ∀ done input, done ++ [input] <+: inputs →
      ∀ login, Runs.exec (release world this) ({ isSignup }, client) done = some login →
        Fitting world this ({ isSignup }, client) done input login := by
  refine forall₅_congr fun done input _ login reached => ?_
  exact unaltered_iff (named reached) reached

private def refusing : World := { parse := fun _ => none, assertions := fun _ => "" }

private def overlong : String := "correct-horse-battery-staple-0123"

private def typed : List Input := [.poll { type := "challstr", args := ["4", "abc"] }, .command "ash"]

/-- The last two characters of a password are lost. -/
theorem password_cut : (Runs.exec (release refusing 1) ({ isSignup := false }, {}) (typed ++ [.command overlong])).map
      (fun login => login.2.asserted) = some [("ash", "correct-horse-battery-staple-01", "4|abc")] ∧
    ¬ ∀ done input, done ++ [input] <+: typed ++ [.command overlong] →
      ∀ login, Runs.exec (release refusing 1) ({ isSignup := false }, {}) done = some login →
        Unaltered refusing 1 ({ isSignup := false }, {}) done input login := by
  refine ⟨by decide +kernel, ?_⟩
  intro unaltered
  have run : ((Runs.exec (release refusing 1) ({ isSignup := false }, {}) typed).bind fun login =>
      (release refusing 1 login (.command overlong)).map fun after =>
        after.2.asserted.drop login.2.asserted.length) =
      some [("ash", "correct-horse-battery-staple-01", "4|abc")] := by decide +kernel
  obtain ⟨login, reached, step⟩ := Option.bind_eq_some_iff.mp run
  obtain ⟨after, taken, requests⟩ := Option.map_eq_some_iff.mp step
  have made := unaltered typed _ (List.prefix_refl _) login reached after taken
  rw [requests] at made
  have same := (made _ (List.mem_singleton_self _)).2
  have latest : password refusing 1 ({ isSignup := false }, {}) (typed ++ [.command overlong]) = some overlong := by
    decide +kernel
  rw [latest] at same
  exact absurd same (by decide)

end LoginOverlay
end ShowdownCli
