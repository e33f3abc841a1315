import ShowdownCli.DebugLog
import ShowdownCli.Library.Results
import ShowdownCli.Library.Runs

/-! What the debug build makes known of a password. Its records are the only difference
to the release build, and one of them is the line in which the password was typed. -/

namespace ShowdownCli.Debug
open Library

variable {answers : Nat → Logged String} {this : Nat} {overlay : LoginOverlay} {client other : PsClient} {msg : Message}

/-! ## The release build -/

theorem onUpdateUser_value (client : PsClient) (msg : Message) : (onUpdateUser client msg).value = client.onUpdateUser msg := by
  unfold onUpdateUser PsClient.onUpdateUser
  cases args : msg.args with
  | nil => rfl
  | cons username rest =>
    cases named : rest[0]? == some "1" <;> simp_all

theorem receive_value (client : PsClient) (msg : Message) :
    (receive client msg).map Logged.value = client.receive msg := by
  unfold receive PsClient.receive
  split
  next => cases client.onChallStr msg <;> rfl
  next =>
    split
    next => exact congrArg Except.ok (onUpdateUser_value client msg)
    next => rfl

theorem chars_head (buffer : Credential) (inside : 0 < 32) : getElem buffer.chars 0 inside = buffer.chars.head := rfl

theorem tryLogin_value (answers : Nat → Logged String) (client : PsClient) :
    (tryLogin answers client).value = client.tryLogin fun request => (answers request).value := by
  simp only [tryLogin, PsClient.tryLogin, chars_head]
  split
  next => rfl
  next =>
    split
    next => rfl
    next =>
      simp only [Logged.value_bind]
      split
      next => rfl
      next => rfl

theorem onCommand_value {world : World} (served : ∀ request, world.assertions request = (answers request).value)
    (overlay : LoginOverlay) (client : PsClient) (cmd : String) :
    (onCommand answers this overlay client cmd).value = overlay.onCommand world this client cmd := by
  have assertions : world.assertions = fun request => (answers request).value := funext served
  simp only [onCommand, LoginOverlay.onCommand, Logged.value_bind]
  cases tokenize cmd with
  | nil => rfl
  | cons token rest =>
    cases rest with
    | cons => rfl
    | nil =>
      simp only
      by_cases named : ¬ overlay.enteredUsername = true
      · simp only [if_pos named]
        cases client.setUsername token with | mk accepted client =>
        cases accepted <;> rfl
      · simp only [if_neg named]
        cases client.setPassword token with | mk accepted client =>
        cases accepted with
        | false => rfl
        | true =>
          simp only [login, Logged.value_bind, tryLogin_value, assertions]
          cases client.tryLogin fun request => (answers request).value with | mk success client =>
          cases success <;> rfl

/-! ## Two passwords -/

/-- Clients that agree in all but the password. Of that a login only reports whether there is one. -/
structure Alike (client other : PsClient) : Prop where
  loggedIn : client.loggedIn = other.loggedIn
  challStr : client.challStr = other.challStr
  username : client.username = other.username
  sent : client.sent = other.sent
  asked : client.asserted.length = other.asserted.length
  blank : client.password.chars.head = '\x00' ↔ other.password.chars.head = '\x00'

theorem Alike.refl (client : PsClient) : Alike client client := ⟨rfl, rfl, rfl, rfl, rfl, Iff.rfl⟩

theorem Alike.onChallStr {next next' : PsClient} (alike : Alike client other) (taken : client.onChallStr msg = .ok next)
    (taken' : other.onChallStr msg = .ok next') : Alike next next' := by
  unfold PsClient.onChallStr at taken taken'
  rw [← alike.loggedIn] at taken'
  by_cases known : client.loggedIn = true
  · rw [if_pos known] at taken taken'
    cases taken
    cases taken'
    exact alike
  · rw [if_neg known] at taken taken'
    obtain ⟨id, first, rest⟩ := except_bind_ok.mp taken
    obtain ⟨challenge, second, made⟩ := except_bind_ok.mp rest
    obtain ⟨_, first', rest'⟩ := except_bind_ok.mp taken'
    obtain ⟨_, second', made'⟩ := except_bind_ok.mp rest'
    cases first.symm.trans first'
    cases second.symm.trans second'
    cases made
    cases made'
    exact ⟨rfl, rfl, alike.username, alike.sent, alike.asked, alike.blank⟩

theorem Alike.onUpdateUser (alike : Alike client other) : (onUpdateUser client msg).records = (onUpdateUser other msg).records ∧
    Alike (onUpdateUser client msg).value (onUpdateUser other msg).value := by
  unfold Debug.onUpdateUser
  cases msg.args with
  | nil => exact ⟨rfl, alike⟩
  | cons username rest =>
    simp only [Logged.records_bind, Logged.value_bind]
    split
    next => exact ⟨rfl, rfl, alike.challStr, alike.username, alike.sent, alike.asked, alike.blank⟩
    next => exact ⟨rfl, alike⟩

theorem Alike.receive {got got' : Logged PsClient} (alike : Alike client other) (received : receive client msg = .ok got)
    (received' : receive other msg = .ok got') : got.records = got'.records ∧ Alike got.value got'.value := by
  unfold Debug.receive at received received'
  by_cases challenge : msg.type = "challstr"
  · rw [if_pos challenge] at received received'
    obtain ⟨next, taken, rfl⟩ := except_map_ok.mp received
    obtain ⟨next', taken', rfl⟩ := except_map_ok.mp received'
    exact ⟨rfl, alike.onChallStr taken taken'⟩
  by_cases user : msg.type = "updateuser"
  · rw [if_neg challenge, if_pos user] at received received'
    cases received
    cases received'
    exact alike.onUpdateUser
  · rw [if_neg challenge, if_neg user] at received received'
    cases received
    cases received'
    exact ⟨rfl, alike⟩

theorem Alike.tryLogin (answers : Nat → Logged String) (alike : Alike client other) :
    (tryLogin answers client).records = (tryLogin answers other).records ∧
    (tryLogin answers client).value.1 = (tryLogin answers other).value.1 ∧
    Alike (tryLogin answers client).value.2 (tryLogin answers other).value.2 := by
  have blank : client.username.chars.head = '\x00' ∨ client.password.chars.head = '\x00' ↔
      client.username.chars.head = '\x00' ∨ other.password.chars.head = '\x00' := or_congr_right alike.blank
  unfold Debug.tryLogin
  rw [← alike.challStr, ← alike.username, ← alike.asked]
  by_cases unchallenged : client.challStr = ""
  · simp only [if_pos unchallenged]
    exact ⟨rfl, rfl, alike⟩
  by_cases unnamed : client.username.chars.head = '\x00' ∨ client.password.chars.head = '\x00'
  · simp only [if_neg unchallenged, if_pos unnamed, if_pos (blank.mp unnamed)]
    exact ⟨rfl, rfl, alike⟩
  · simp only [if_neg unchallenged, if_neg unnamed, if_neg (mt blank.mpr unnamed), Logged.records_bind, Logged.value_bind]
    split
    next => exact ⟨rfl, rfl, alike.loggedIn, rfl, rfl, alike.sent, by simp [alike.asked], alike.blank⟩
    next =>
      refine ⟨rfl, rfl, alike.loggedIn, rfl, rfl, ?_, ?_, Iff.rfl⟩
      · simp [send, PsClient.send, alike.sent]
      · simp [send, PsClient.send, alike.asked]

theorem Alike.login (answers : Nat → Logged String) (this : Nat) (overlay : LoginOverlay) (alike : Alike client other) :
    (login answers this overlay client).records = (login answers this overlay other).records ∧
    (login answers this overlay client).value.layer = (login answers this overlay other).value.layer ∧
    Alike (login answers this overlay client).value.client (login answers this overlay other).value.client := by
  obtain ⟨records, success, after⟩ := alike.tryLogin answers
  simp only [Debug.login, Logged.records_bind, Logged.value_bind, records]
  revert success after
  cases (Debug.tryLogin answers client).value with | mk succeeds client =>
  cases (Debug.tryLogin answers other).value with | mk succeeds' other =>
  rintro rfl after
  cases succeeds <;> exact ⟨rfl, rfl, after⟩

theorem Alike.setUsername (alike : Alike client other) (text : String) :
    (client.setUsername text).1 = (other.setUsername text).1 ∧
      Alike (client.setUsername text).2 (other.setUsername text).2 := by
  unfold PsClient.setUsername
  split
  next => exact ⟨rfl, alike.loggedIn, alike.challStr, congrArg (Credential.set · text) alike.username, alike.sent,
    alike.asked, alike.blank⟩
  next => exact ⟨rfl, alike⟩

/-- An empty password is stored for a text that starts with a zero. -/
def startsBlank (text : String) : Bool := text.toList.head? = some '\x00'

theorem set_blank {text : String} (accepted : Credential.accepts text = true) (buffer : Credential) :
    (buffer.set text).chars.head = '\x00' ↔ startsBlank text = true := by
  have filled : text.toList ≠ [] := by
    rintro nil
    simp [Credential.accepts, String.toList_eq_nil_iff.mp nil] at accepted
  obtain ⟨first, rest, shape⟩ := List.exists_cons_of_ne_nil filled
  rw [← chars_head _ (by decide)]
  have inside : 0 < min (rest.length + 1) 31 := by omega
  simp only [Credential.set, startsBlank, shape, Vector.getElem_ofFn, List.length_cons, if_pos inside,
    List.getD_cons_zero, List.head?_cons, Option.some.injEq, decide_eq_true_eq]

theorem Alike.setPassword {token token' : String} (alike : Alike client other) (accepted : Credential.accepts token = true)
    (accepted' : Credential.accepts token' = true) (blank : startsBlank token = startsBlank token') :
    (client.setPassword token).1 = true ∧ (other.setPassword token').1 = true ∧
      Alike (client.setPassword token).2 (other.setPassword token').2 := by
  unfold PsClient.setPassword
  rw [if_pos accepted, if_pos accepted']
  refine ⟨rfl, rfl, alike.loggedIn, alike.challStr, alike.username, alike.sent, alike.asked, ?_⟩
  rw [set_blank accepted, set_blank accepted', blank]

/-- The record of a command. Every line has one, whatever it is taken for. -/
def commandRecord (cmd : String) : LogRecord := { level := .info, text := "[LoginOverlay] Command Recieved: '" ++ cmd ++ "'" }

theorem commandRecord_inj {cmd cmd' : String} : commandRecord cmd = commandRecord cmd' ↔ cmd = cmd' := by
  simp [commandRecord, String.ext_iff]

theorem Alike.onCommand (answers : Nat → Logged String) (this : Nat) (overlay : LoginOverlay) (alike : Alike client other)
    (cmd : String) :
    (onCommand answers this overlay client cmd).records = (onCommand answers this overlay other cmd).records ∧
    (onCommand answers this overlay client cmd).value.layer = (onCommand answers this overlay other cmd).value.layer ∧
    Alike (onCommand answers this overlay client cmd).value.client
      (onCommand answers this overlay other cmd).value.client := by
  simp only [Debug.onCommand, Logged.records_bind, Logged.value_bind]
  cases tokenize cmd with
  | nil => exact ⟨rfl, rfl, alike⟩
  | cons token rest =>
    cases rest with
    | cons => exact ⟨rfl, rfl, alike⟩
    | nil =>
      simp only
      by_cases named : ¬ overlay.enteredUsername = true
      · simp only [if_pos named]
        obtain ⟨success, after⟩ := alike.setUsername token
        revert success after
        cases client.setUsername token with | mk accepted client =>
        cases other.setUsername token with | mk accepted' other =>
        rintro rfl after
        cases accepted <;> exact ⟨rfl, rfl, after⟩
      · simp only [if_neg named]
        by_cases accepted : Credential.accepts token = true
        · obtain ⟨success, success', after⟩ := alike.setPassword accepted accepted rfl
          revert success success' after
          cases client.setPassword token with | mk accepted client =>
          cases other.setPassword token with | mk accepted' other =>
          rintro rfl rfl after
          obtain ⟨records, layer, after⟩ := after.login answers this overlay
          exact ⟨congrArg _ records, layer, after⟩
        · simp only [PsClient.setPassword, if_neg accepted]
          exact ⟨rfl, rfl, alike⟩

theorem onCommand_password {token cmd : String} (named : overlay.enteredUsername = true) (tokens : tokenize cmd = [token])
    (accepted : Credential.accepts token = true) :
    (onCommand answers this overlay client cmd).records =
      commandRecord cmd :: (login answers this overlay (client.setPassword token).2).records ∧
    (onCommand answers this overlay client cmd).value = (login answers this overlay (client.setPassword token).2).value := by
  simp only [Debug.onCommand, Logged.records_bind, Logged.value_bind, tokens, named, not_true, if_false, PsClient.setPassword,
    if_pos accepted, and_true]
  rfl

/-! ## Two runs -/

/-- What the login can be given: a line that is typed, or a message of the server. -/
inductive Input where
  | command (cmd : String)
  | poll (msg : Message)

/-- A login overlay and its client, with the records that were written. -/
structure Session where
  overlay : LoginOverlay
  client : PsClient
  log : List LogRecord := []

namespace Session
variable {session after start final final' : Session}

def step (answers : Nat → Logged String) (this : Nat) (session : Session) : Input → Option Session
  | .command cmd =>
    let reaction := onCommand answers this session.overlay session.client cmd
    some { overlay := reaction.value.layer, client := reaction.value.client, log := session.log ++ reaction.records }
  | .poll msg => (receive session.client msg).toOption.map fun got =>
    { session with client := got.value, log := session.log ++ got.records }

/-- The same in the release build. -/
def release (world : World) (this : Nat) (login : LoginOverlay × PsClient) : Input → Option (LoginOverlay × PsClient)
  | .command cmd =>
    let reaction := login.1.onCommand world this login.2 cmd
    some (reaction.layer, reaction.client)
  | .poll msg => (login.2.receive msg).toOption.map fun client => (login.1, client)

/-- Without its records a run is one of the release build. -/
theorem exec_released {world : World} (served : ∀ request, world.assertions request = (answers request).value)
    {inputs : List Input} (reached : Runs.exec (step answers this) session inputs = some final) :
    Runs.exec (release world this) (session.overlay, session.client) inputs = some (final.overlay, final.client) := by
  have same : (Runs.exec (step answers this) session inputs).map (fun session => (session.overlay, session.client)) =
      Runs.exec (release world this) (session.overlay, session.client) inputs := by
    refine Runs.exec_map (fun session input => ?_) session inputs
    cases input with
    | command cmd => simp only [step, release, Option.map_some, onCommand_value served]
    | poll msg =>
      simp only [step, release, ← receive_value, Option.map_map]
      cases receive session.client msg <;> rfl
  rw [← same, reached, Option.map_some]

/-- Sessions that go on in the same way, each with the records it had before. -/
structure Parallel (log log' : List LogRecord) (session other : Session) : Prop where
  overlay : session.overlay = other.overlay
  client : Alike session.client other.client
  records : ∃ rest, session.log = log ++ rest ∧ other.log = log' ++ rest

theorem Parallel.step {log log' : List LogRecord} {other after' : Session} (parallel : Parallel log log' session other)
    {input : Input} (taken : step answers this session input = some after)
    (taken' : step answers this other input = some after') : Parallel log log' after after' := by
  obtain ⟨rest, before, before'⟩ := parallel.records
  cases input with
  | command cmd =>
    cases taken
    cases taken'
    obtain ⟨records, layer, client⟩ := parallel.client.onCommand answers this session.overlay cmd
    rw [parallel.overlay] at records layer client
    refine ⟨by simp only [parallel.overlay, layer], by simpa only [parallel.overlay] using client,
      rest ++ (onCommand answers this other.overlay other.client cmd).records, ?_, ?_⟩
    · simp only [before, parallel.overlay, records, List.append_assoc]
    · simp only [before', List.append_assoc]
  | poll msg =>
    obtain ⟨got, received, rfl⟩ := Option.map_eq_some_iff.mp taken
    obtain ⟨got', received', rfl⟩ := Option.map_eq_some_iff.mp taken'
    obtain ⟨records, client⟩ := parallel.client.receive (toOption_some.mp received) (toOption_some.mp received')
    exact ⟨parallel.overlay, client, rest ++ got.records, by simp [before], by simp [before', records]⟩

theorem grows {inputs : List Input} (reached : Runs.exec (step answers this) session inputs = some final) :
    session.log <+: final.log := by
  refine Runs.always (fun _ current => session.log <+: current.log) (List.prefix_refl _) ?_ reached
  intro _ input before after earlier taken
  cases input with
  | command cmd =>
    cases taken
    exact earlier.trans (List.prefix_append ..)
  | poll msg =>
    obtain ⟨got, _, rfl⟩ := Option.map_eq_some_iff.mp taken
    exact earlier.trans (List.prefix_append ..)

/-- A line that is accepted as a password. -/
structure Enters (session : Session) (cmd token : String) : Prop where
  named : session.overlay.enteredUsername = true
  tokens : tokenize cmd = [token]
  accepted : Credential.accepts token = true

/-- The session after a password. -/
def entered (answers : Nat → Logged String) (this : Nat) (session : Session) (cmd token : String) : Session :=
  let reaction := login answers this session.overlay (session.client.setPassword token).2
  { overlay := reaction.value.layer, client := reaction.value.client
    log := session.log ++ commandRecord cmd :: reaction.records }

theorem Enters.step {cmd token : String} (enters : session.Enters cmd token) :
    step answers this session (.command cmd) = some (session.entered answers this cmd token) := by
  obtain ⟨records, value⟩ := @onCommand_password answers this _ session.client _ _ enters.named enters.tokens enters.accepted
  simp only [Session.step, entered, records, value]

theorem Enters.run {cmd token : String} {before later : List Input} (enters : session.Enters cmd token)
    (reached : Runs.exec (Session.step answers this) start before = some session)
    (run : Runs.exec (Session.step answers this) start (before ++ .command cmd :: later) = some final) :
    Runs.exec (Session.step answers this) (session.entered answers this cmd token) later = some final := by
  rw [Runs.exec_append, reached, Option.bind_some, Runs.exec_cons, enters.step] at run
  exact run

theorem entered_parallel {line line' token token' : String} (enters : session.Enters line token)
    (enters' : session.Enters line' token') (blank : startsBlank token = startsBlank token') :
    Parallel (session.log ++ [commandRecord line]) (session.log ++ [commandRecord line'])
      (session.entered answers this line token) (session.entered answers this line' token') := by
  obtain ⟨_, _, alike⟩ := (Alike.refl session.client).setPassword enters.accepted enters'.accepted blank
  obtain ⟨records, layer, client⟩ := alike.login answers this session.overlay
  refine ⟨layer, client, (login answers this session.overlay (session.client.setPassword token).2).records, ?_, ?_⟩
  · simp [entered]
  · simp [entered, records]

theorem entered_log {cmd token : String} {later : List Input}
    (run : Runs.exec (Session.step answers this) (session.entered answers this cmd token) later = some final) :
    ∃ rest, final.log = session.log ++ commandRecord cmd :: rest := by
  obtain ⟨rest, log⟩ := grows run
  exact ⟨_, by rw [← log, entered, List.append_assoc, List.cons_append]⟩

/-- Of two runs with different passwords the records differ where the password was typed. If both
passwords or none start with a zero, they differ nowhere else, and the frames are the same. But for
the records each of the two is a run of the release build. -/
theorem password_logged {before after : List Input} {line line' token token' : String}
    (reached : Runs.exec (step answers this) start before = some session) (enters : session.Enters line token)
    (enters' : session.Enters line' token') (differ : token ≠ token')
    (run : Runs.exec (step answers this) start (before ++ .command line :: after) = some final)
    (run' : Runs.exec (step answers this) start (before ++ .command line' :: after) = some final') :
    final.log ≠ final'.log ∧ ∃ rest rest', final.log = session.log ++ commandRecord line :: rest ∧
      final'.log = session.log ++ commandRecord line' :: rest' ∧
      (startsBlank token = startsBlank token' → rest = rest' ∧ final.client.sent = final'.client.sent) ∧
      ∀ world : World, (∀ request, world.assertions request = (answers request).value) →
        Runs.exec (release world this) (start.overlay, start.client) (before ++ .command line :: after) =
          some (final.overlay, final.client) ∧
        Runs.exec (release world this) (start.overlay, start.client) (before ++ .command line' :: after) =
          some (final'.overlay, final'.client) := by
  have plain {world : World} (served : ∀ request, world.assertions request = (answers request).value) :=
    And.intro (exec_released served run) (exec_released served run')
  have run := enters.run reached run
  have run' := enters'.run reached run'
  obtain ⟨rest, log⟩ := entered_log run
  obtain ⟨rest', log'⟩ := entered_log run'
  refine ⟨?_, rest, rest', log, log', ?_, fun _ served => plain served⟩
  · intro same
    rw [log, log'] at same
    have record := (List.cons.inj (List.append_cancel_left same)).1
    cases commandRecord_inj.mp record
    exact differ (List.singleton_inj.mp (enters.tokens.symm.trans enters'.tokens))
  · intro blank
    have parallel := Runs.related (fun _ _ _ _ _ parallel taken taken' => parallel.step taken taken')
      (entered_parallel enters enters' blank) run run'
    obtain ⟨written, same, same'⟩ := parallel.records
    rw [log, List.append_assoc, List.singleton_append] at same
    rw [log', List.append_assoc, List.singleton_append] at same'
    have records := (List.cons.inj (List.append_cancel_left same)).2
    have records' := (List.cons.inj (List.append_cancel_left same')).2
    exact ⟨records.trans records'.symm, parallel.client.sent⟩

private def doorman : Session := { overlay := { isSignup := false }, client := {} }

private def knock : List Input := [.poll { type := "challstr", args := ["4", "abc"] }, .command "ash"]

theorem password_logged_knock :
    ∃ session final final', Runs.exec (step (fun _ => { value := "token" }) 1) doorman knock = some session ∧
      Runs.exec (step (fun _ => { value := "token" }) 1) doorman (knock ++ [.command "pikachu"]) = some final ∧
      Runs.exec (step (fun _ => { value := "token" }) 1) doorman (knock ++ [.command " raichu "]) = some final' ∧
      final.log ≠ final'.log ∧ ∃ rest rest', final.log = session.log ++ commandRecord "pikachu" :: rest ∧
        final'.log = session.log ++ commandRecord " raichu " :: rest' ∧
        (startsBlank "pikachu" = startsBlank "raichu" → rest = rest' ∧ final.client.sent = final'.client.sent) ∧
        ∀ world : World, (∀ request, world.assertions request = "token") →
          Runs.exec (release world 1) (doorman.overlay, doorman.client) (knock ++ [.command "pikachu"]) =
            some (final.overlay, final.client) ∧
          Runs.exec (release world 1) (doorman.overlay, doorman.client) (knock ++ [.command " raichu "]) =
            some (final'.overlay, final'.client) := by
  have named : (Runs.exec (step (fun _ => { value := "token" }) 1) doorman knock).map
      (fun session => session.overlay.enteredUsername) = some true := by decide +kernel
  obtain ⟨session, reached, named⟩ := Option.map_eq_some_iff.mp named
  have run : (Runs.exec (step (fun _ => { value := "token" }) 1) doorman (knock ++ [.command "pikachu"])).isSome := by
    decide +kernel
  have run' : (Runs.exec (step (fun _ => { value := "token" }) 1) doorman (knock ++ [.command " raichu "])).isSome := by
    decide +kernel
  obtain ⟨final, run⟩ := Option.isSome_iff_exists.mp run
  obtain ⟨final', run'⟩ := Option.isSome_iff_exists.mp run'
  refine ⟨session, final, final', reached, run, run', ?_⟩
  exact password_logged reached ⟨named, by decide, by decide⟩ ⟨named, by decide, by decide⟩ (by decide) run run'

/-- Two logins that succeed. The record of the second line holds the password. -/
theorem password_in_records :
    (Runs.exec (step (fun _ => { value := "token" }) 1) doorman (knock ++ [.command "pikachu"])).map
      (fun final => final.log.map LogRecord.text) = some ["[LoginOverlay] Command Recieved: 'ash'",
        "[LoginOverlay] Command Recieved: 'pikachu'", "Verifying challstr...", "Sending: |/trn ash,0,token"] ∧
    (Runs.exec (step (fun _ => { value := "token" }) 1) doorman (knock ++ [.command "pikachu"])).map Session.log ≠
      (Runs.exec (step (fun _ => { value := "token" }) 1) doorman (knock ++ [.command "raichu"])).map Session.log := by
  decide +kernel

end Session
end ShowdownCli.Debug
