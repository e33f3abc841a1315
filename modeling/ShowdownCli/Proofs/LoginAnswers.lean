import ShowdownCli.Auth
import ShowdownCli.Library.Results
import ShowdownCli.Proofs.AppDialogue

/-! The answers of the login server. Whatever it answers, asking it has a result, which is
empty unless it grants the request; and the logins of a run are those it has granted. -/

namespace ShowdownCli.Auth
open Library

/-- The request was completed and the body is `]` with an object after it whose assertion is
a text that is not empty and not an error. -/
structure Grants (parse : String → Option Json) (answer : Option Answer) (assertion : String) : Prop where
  body : ∃ completed rest members, answer = some completed ∧ completed.res = true ∧
    completed.pieces.flatten = ']' :: rest ∧ parse (String.ofList rest) = some (.object members) ∧
    members.lookup "assertion" = some (.string assertion)
  filled : assertion ≠ ""
  accepted : assertion.toList.head? ≠ some ';'

variable {parse : String → Option Json}

theorem responseBuffer_eq (answer : Answer) : responseBuffer answer = answer.pieces.flatten := by
  have appended (pieces : List (List Char)) (userp : List Char) :
      pieces.foldl writeCallback userp = userp ++ pieces.flatten := by
    induction pieces generalizing userp with
    | nil => simp
    | cons piece rest ih => rw [List.foldl_cons, ih, writeCallback, List.flatten_cons, List.append_assoc]
  exact (appended answer.pieces []).trans (List.nil_append _)

theorem member_caught (j : Json) (key : String) : j.member key ≠ .error .undefined := by
  cases j <;> simp [Json.member]

theorem getString_caught (j : Json) : j.getString ≠ .error .undefined := by
  cases j <;> simp [Json.getString]

/-- Only exceptions leave the `try`, never undefined behaviour. -/
theorem readAssertion_caught (text : String) : readAssertion parse text ≠ .error .undefined := by
  unfold readAssertion
  split
  next => simp
  next j _ =>
    split
    next =>
      apply except_bind_avoids (member_caught j "assertion")
      intro value
      apply except_bind_avoids (getString_caught value)
      intro assertion
      simp [pure, Except.pure]
    next =>
      split
      next =>
        apply except_bind_avoids (member_caught j "curuser")
        intro user
        apply except_bind_avoids (member_caught user "loggedin")
        intro flag
        simp [pure, Except.pure]
      next => simp

theorem readAssertion_iff {text assertion : String} (filled : assertion ≠ "") :
    readAssertion parse text = .ok assertion ↔ ∃ members, parse text = some (.object members) ∧
      members.lookup "assertion" = some (.string assertion) ∧ assertion.toList.head? ≠ some ';' := by
  constructor
  · intro read
    unfold readAssertion at read
    split at read
    next => cases read
    next j parsed =>
      split at read
      next contains =>
        obtain ⟨value, member, rest⟩ := except_bind_ok.mp read
        obtain ⟨given, string, returned⟩ := except_bind_ok.mp rest
        cases Json.getString_ok.mp string
        cases j with
        | object members =>
          obtain ⟨value, found⟩ := Option.isSome_iff_exists.mp contains
          have same : value = .string given := by simpa [Json.member, found] using member
          simp only [pure, Except.pure, Except.ok.injEq] at returned
          split at returned
          next => exact absurd returned.symm filled
          next plain =>
            subst returned
            exact ⟨members, parsed, same ▸ found, plain⟩
        | null | bool | integer | real | string | array => cases contains
      next =>
        split at read
        next =>
          obtain ⟨user, _, rest⟩ := except_bind_ok.mp read
          obtain ⟨flag, _, same⟩ := except_bind_ok.mp rest
          exact absurd (Except.ok.inj same).symm filled
        next => exact absurd (Except.ok.inj read).symm filled
  · intro given
    obtain ⟨members, parsed, found, plain⟩ := given
    have contains : (Json.object members).contains "assertion" = true := by simp [Json.contains, found]
    have member : (Json.object members).member "assertion" = .ok (.string assertion) := by simp [Json.member, found]
    unfold readAssertion
    simp only [parsed, if_pos contains]
    refine except_bind_ok.mpr ⟨_, member, except_bind_ok.mpr ⟨assertion, rfl, ?_⟩⟩
    rw [if_neg plain]
    rfl

theorem grants_completed {completed : Answer} {rest : List Char} {assertion : String} (res : completed.res = true)
    (body : responseBuffer completed = ']' :: rest) :
    Grants parse (some completed) assertion ↔
      readAssertion parse (String.ofList rest) = .ok assertion ∧ assertion ≠ "" := by
  rw [responseBuffer_eq] at body
  constructor
  · intro grants
    obtain ⟨⟨other, others, members, same, _, there, parsed, found⟩, filled, plain⟩ := grants
    cases same
    cases body.symm.trans there
    exact ⟨(readAssertion_iff filled).mpr ⟨members, parsed, found, plain⟩, filled⟩
  · intro given
    obtain ⟨read, filled⟩ := given
    obtain ⟨members, parsed, found, plain⟩ := (readAssertion_iff filled).mp read
    exact ⟨⟨completed, rest, members, rfl, res, body, parsed, found⟩, filled, plain⟩

/-- Asking the login server has a result whatever it answers, even if the body does not parse
or the assertion is no text; and the result is an assertion exactly if the request was granted. -/
theorem assertion_iff (parse : String → Option Json) (answer : Option Answer) :
    ∃ token, requestAssertion parse answer = .ok token ∧
      ∀ assertion, token = assertion ∧ assertion ≠ "" ↔ Grants parse answer assertion := by
  have refuses (none : ∀ assertion, ¬ Grants parse answer assertion) (assertion : String) :
      "" = assertion ∧ assertion ≠ "" ↔ Grants parse answer assertion :=
    iff_of_false (fun given => given.2 given.1.symm) (none assertion)
  cases answer with
  | none =>
    refine ⟨"", rfl, refuses fun assertion grants => ?_⟩
    obtain ⟨completed, _, _, same, _⟩ := grants.body
    cases same
  | some completed =>
    cases res : completed.res with
    | false =>
      refine ⟨"", by simp [requestAssertion, res], refuses fun assertion grants => ?_⟩
      obtain ⟨other, _, _, same, success, _⟩ := grants.body
      cases same
      cases res.symm.trans success
    | true =>
      by_cases prefixed : ∃ rest, responseBuffer completed = ']' :: rest
      · obtain ⟨rest, body⟩ := prefixed
        simp only [grants_completed res body]
        cases read : readAssertion parse (String.ofList rest) with
        | ok token => exact ⟨token, by simp [requestAssertion, res, body, read], fun _ => by rw [Except.ok.injEq]⟩
        | error fault =>
          cases fault with
          | undefined => exact absurd read (readAssertion_caught _)
          | uncaught => exact ⟨"", by simp [requestAssertion, res, body, read], fun assertion => by simp [eq_comm]⟩
      · refine ⟨"", ?_, refuses fun assertion grants => ?_⟩
        · simp only [requestAssertion, res, if_true]
          split
          next rest body => exact absurd ⟨rest, body⟩ prefixed
          next => rfl
        · obtain ⟨other, rest, _, same, _, body, _⟩ := grants.body
          cases same
          exact prefixed ⟨rest, (responseBuffer_eq _).trans body⟩

variable {answers : Nat → Option Answer}

theorem world_assertion {request : Nat} {assertion : String} :
    (world parse answers).assertions request = assertion ∧ assertion ≠ "" ↔ Grants parse (answers request) assertion := by
  obtain ⟨token, asked, granted⟩ := assertion_iff parse (answers request)
  rw [← granted]
  simp [world, asked, Except.toOption]

theorem granted_iff {asked : (String × String × String) × Nat} {login : Utterance} :
    granted (world parse answers) asked = some login ↔
      ∃ assertion, Grants parse (answers asked.2) assertion ∧ login = .login asked.1.1 assertion := by
  simp only [granted, ← world_assertion]
  split
  next refused => simp [refused]
  next given => simp [given, eq_comm]

/-- A frame that the server takes for a login. -/
def trusts (frame : String) : Bool := "|/trn ".toList.isPrefixOf frame.toList

theorem trusts_iff {frame : String} : trusts frame = true ↔ "|/trn ".toList <+: frame.toList := List.isPrefixOf_iff_prefix

/-- Behind a room an order is taken for a login only if the room itself begins like one. -/
theorem order_untrusted {room : String} (given : Order) (plain : ¬ "|/trn ".toList <+: room.toList) :
    trusts (room ++ given.text) = false := by
  have bar : ∃ rest, given.text.toList = '|' :: rest := by
    cases given with
    | switch | move => exact ⟨_, by simp only [Order.text, String.toList_append]; rfl⟩
    | forfeit => exact ⟨_, rfl⟩
    | timer on => cases on <;> exact ⟨_, rfl⟩
  have other : ¬ "|/trn ".toList <+: given.text.toList := by
    cases given with
    | switch | move => simp [Order.text, List.cons_prefix_cons]
    | forfeit => decide
    | timer on => cases on <;> decide
  obtain ⟨text, shape⟩ := bar
  rw [Bool.eq_false_iff, Ne, trusts_iff, String.toList_append]
  intro begins
  rcases List.prefix_or_prefix_of_prefix begins (List.prefix_append ..) with longer | shorter
  · exact plain longer
  · obtain ⟨rest, split⟩ := shorter
    rw [← split, List.prefix_append_right_inj, shape] at begins
    -- what is missing of the beginning would begin with a bar
    cases rest with
    | nil =>
      rw [List.append_nil] at split
      exact plain (split ▸ List.prefix_refl _)
    | cons c more =>
      obtain ⟨rfl, _⟩ := List.cons_prefix_cons.mp begins
      cases letters : room.toList with
      | nil =>
        rw [letters, List.nil_append] at split
        rw [split, ← shape] at begins
        exact other begins
      | cons first front =>
        rw [letters, List.cons_append] at split
        have tail : front ++ '|' :: more = "/trn ".toList := (List.cons.inj split).2
        have inside : '|' ∈ "/trn ".toList := tail ▸ List.mem_append_right _ List.mem_cons_self
        exact absurd inside (by decide)

/-- With a login server that gives these answers, and unless a room that is joined is itself
named like a login, the frames that log in are those for the requests that were granted: one
each, in their order, for the name that was asked for and with the assertion that was given. -/
theorem logins_granted {actions : List PsApp.Action} {app : PsApp}
    (reached : Runs.exec (PsApp.step (world parse answers)) PsApp.init actions = some app)
    (rooms : ∀ room, "|/join " ++ room ∈ app.client.sent → ¬ "|/trn ".toList <+: room.toList) :
    ∃ logins : (String × String × String) × Nat → Option String,
      app.client.sent.filter trusts = app.client.asserted.zipIdx.filterMap logins ∧
      ∀ asked frame, logins asked = some frame ↔
        ∃ assertion, Grants parse (answers asked.2) assertion ∧ frame = "|/trn " ++ asked.1.1 ++ ",0," ++ assertion := by
  obtain ⟨utterances, seat, taken, sent, _, logins, _⟩ := PsApp.said reached
  refine ⟨fun asked => (granted (world parse answers) asked).map Utterance.frame, ?_, fun asked frame => ?_⟩
  · have recognised : ∀ utterance ∈ utterances, (trusts ∘ Utterance.frame) utterance = utterance.isLogin := by
      intro utterance member
      cases utterance with
      | search => decide
      | login username assertion => simp [trusts, Utterance.frame, Utterance.isLogin, List.isPrefixOf]
      | join room => simp [trusts, Utterance.frame, Utterance.isLogin, List.isPrefixOf]
      | order room given =>
        obtain ⟨done, rest, split⟩ := List.append_of_mem member
        have inside : done ++ [.order room given] <+: utterances := ⟨rest, by rw [split, List.append_assoc]; rfl⟩
        apply order_untrusted given
        rcases Seat.order_joined taken inside with rfl | joined
        · decide
        · apply rooms room
          rw [sent]
          exact List.mem_map_of_mem (inside.subset (List.mem_append_left _ joined))
    rw [sent, List.filter_map, List.filter_congr recognised, logins, List.map_filterMap]
  · rw [Option.map_eq_some_iff]
    simp only [granted_iff]
    constructor
    · rintro ⟨login, ⟨assertion, grants, rfl⟩, rfl⟩
      exact ⟨assertion, grants, rfl⟩
    · rintro ⟨assertion, grants, rfl⟩
      exact ⟨_, ⟨assertion, grants, rfl⟩, rfl⟩

private def loginParse (text : String) : Option Json :=
  if text = "ok" then some (.object [("assertion", .string "token")]) else none

private def loginAnswers (_ : Nat) : Option Answer := some { res := true, pieces := [[']', 'o'], ['k']] }

/-- A login with the challenge that arrived while the menu was open. -/
private def signingIn : List PsApp.Action :=
  [.drained, .dispatch, .dispatch, .line (some "2"), .render,
    .message { roomId := "", type := "challstr", args := ["4", "abc"] }, .drained, .dispatch, .dispatch, .dispatch,
    .line (some "Ash"), .render, .drained, .dispatch, .dispatch, .line (some "pika"), .render, .drained, .dispatch]

theorem logins_granted_signingIn :
    ∃ app, Runs.exec (PsApp.step (world loginParse loginAnswers)) PsApp.init signingIn = some app ∧
      app.client.sent = ["|/trn Ash,0,token"] ∧
      ∃ logins : (String × String × String) × Nat → Option String,
        app.client.sent.filter trusts = app.client.asserted.zipIdx.filterMap logins ∧
        ∀ asked frame, logins asked = some frame ↔
          ∃ assertion, Grants loginParse (loginAnswers asked.2) assertion ∧
            frame = "|/trn " ++ asked.1.1 ++ ",0," ++ assertion := by
  have run : (Runs.exec (PsApp.step (world loginParse loginAnswers)) PsApp.init signingIn).map (fun app =>
      app.client.sent) = some ["|/trn Ash,0,token"] := by decide +kernel
  obtain ⟨app, reached, sent⟩ := Option.map_eq_some_iff.mp run
  refine ⟨app, reached, sent, logins_granted reached fun room joined => ?_⟩
  rw [sent, List.mem_singleton] at joined
  have letters := congrArg String.toList joined
  simp at letters

end ShowdownCli.Auth
