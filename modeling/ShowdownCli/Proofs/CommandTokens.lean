import ShowdownCli.Layers

/-! Commands of a battle as the tokens of their lines. A pick is recognised by its first
token and all else by the whole line, but what a pick sends is the first character of the
line. -/

namespace ShowdownCli.BattleLayer

variable {world : World} {this : Nat} {battle : BattleLayer} {client : PsClient}
variable {line line' token : String} {rest : List String}

def digits : List String := ["1", "2", "3", "4"]

/-- The commands that have to be the whole line. -/
def wholeLines : List String := ["f", "t", "s1", "s2", "s3", "s4", "s5", "s6"]

/-- The frame of a pick, with what names the move or the Pokemon. -/
def pickFrame (battle : BattleLayer) (switching : Bool) (picked : String) (rest : List String) : String :=
  battle.battleRoom ++ (if switching then "|/choose switch " ++ picked
    else "|/choose move " ++ picked ++ (if rest = ["tera"] then " terastallize" else ""))

/-- The first character of a line, which a pick sends. -/
def initial (line : String) : String := String.ofList (line.toList.take 1)

theorem initial_inj : initial line = initial line' ↔ line.toList.head? = line'.toList.head? := by
  rw [initial, initial, String.ofList_inj]
  cases line.toList with
  | nil => cases line'.toList <;> simp
  | cons c _ => cases line'.toList <;> simp

theorem choose_frame (battle : BattleLayer) (client : PsClient) (line : String) (rest : List String) :
    battle.choose client line rest =
      battle.isForceSwitch.map fun switching => client.send (battle.pickFrame switching (initial line) rest) := by
  unfold choose isForceSwitch pickFrame
  cases battle.state.forceSwitch with
  | none => rfl
  | some switching =>
    cases switching with
    | true => simp only [String.append_assoc]; rfl
    | false => simp only [String.append_assoc]; rfl

theorem onCommand_pick (tokens : tokenize line = token :: rest) (digit : token ∈ digits) :
    battle.onCommand client line = battle.isForceSwitch.map fun switching =>
      { layer := battle, client := client.send (battle.pickFrame switching (initial line) rest), handled := true } := by
  rw [digits] at digit
  simp only [onCommand, tokens, if_pos digit, choose_frame]
  cases battle.isForceSwitch with
  | error fault => rfl
  | ok switching => rfl

theorem isForceSwitch_known {switching : Bool} (known : battle.state.forceSwitch = some switching) :
    battle.isForceSwitch = .ok switching := by
  rw [isForceSwitch, known]

theorem isForceSwitch_unknown (unknown : battle.state.forceSwitch = none) :
    battle.isForceSwitch = .error .undefined := by
  rw [isForceSwitch, unknown]

theorem toggleTimer_sends (battle : BattleLayer) (client : PsClient) :
    ∃ frame, (battle.toggleTimer client).2 = client.send frame := by
  unfold toggleTimer
  split
  next => exact ⟨_, rfl⟩
  next => exact ⟨_, rfl⟩

/-- Each of these commands sends one frame. -/
theorem onCommand_whole (whole : line ∈ wholeLines) :
    ∃ reaction frame, battle.onCommand client line = .ok reaction ∧ reaction.client = client.send frame := by
  simp only [wholeLines, List.mem_cons, List.not_mem_nil, or_false] at whole
  obtain ⟨toggled, sent⟩ := battle.toggleTimer_sends client
  rcases whole with rfl | rfl | rfl | rfl | rfl | rfl | rfl | rfl
  · exact ⟨_, _, rfl, rfl⟩
  · exact ⟨{ layer := (battle.toggleTimer client).1, client := (battle.toggleTimer client).2, handled := true },
      toggled, rfl, sent⟩
  all_goals exact ⟨_, _, rfl, rfl⟩

theorem onCommand_other (unpicked : ∀ token rest, tokenize line = token :: rest → token ∉ digits)
    (other : line ∉ wholeLines) :
    battle.onCommand client line = .ok { layer := battle, client, handled := true } := by
  simp only [wholeLines, List.mem_cons, List.not_mem_nil, or_false, not_or] at other
  unfold onCommand
  cases tokens : tokenize line with
  | nil => rfl
  | cons token rest =>
    have undigit : token ∉ ["1", "2", "3", "4"] := unpicked token rest tokens
    simp only [if_neg undigit]
    simp [other]

theorem send_inj {frame frame' : String} : client.send frame = client.send frame' ↔ frame = frame' := by
  simp [PsClient.send]

theorem send_ne (frame : String) : client.send frame ≠ client := by
  intro same
  have sent := congrArg PsClient.sent same
  simp [PsClient.send] at sent

theorem pickFrame_inj {switching : Bool} {picked picked' : String} :
    battle.pickFrame switching picked rest = battle.pickFrame switching picked' rest ↔ picked = picked' := by
  cases switching with
  | true => simp [pickFrame, String.append_right_inj]
  | false => simp [pickFrame, String.append_right_inj, String.append_left_inj]

/-- Two lines do the same, and neither call is undefined. -/
def Agree (battle : BattleLayer) (client : PsClient) (line line' : String) : Prop :=
  ∃ reaction, battle.onCommand client line = .ok reaction ∧ battle.onCommand client line' = .ok reaction

/-- Two picks of the same tokens do the same when the lines begin the same. -/
theorem pick_iff (tokens : tokenize line = token :: rest) (tokens' : tokenize line' = token :: rest)
    (digit : token ∈ digits) : battle.Agree client line line' ↔
      battle.state.forceSwitch ≠ none ∧ line.toList.head? = line'.toList.head? := by
  unfold Agree
  rw [onCommand_pick tokens digit, onCommand_pick tokens' digit]
  cases forced : battle.state.forceSwitch with
  | none => simp [isForceSwitch_unknown forced, Except.map]
  | some switching =>
    simp [isForceSwitch_known forced, Except.map, send_inj, pickFrame_inj, initial_inj, eq_comm]

theorem whole_tokens (whole : line ∈ wholeLines) : tokenize line = [line] ∧ line ∉ digits := by
  have every : ∀ line ∈ wholeLines, tokenize line = [line] ∧ line ∉ digits := by decide
  exact every line whole

/-- A line that is no pick always has a result. -/
theorem onCommand_total (unpicked : ∀ token rest, tokenize line = token :: rest → token ∉ digits) :
    ∃ reaction, battle.onCommand client line = .ok reaction := by
  by_cases whole : line ∈ wholeLines
  · obtain ⟨reaction, _, sends, _⟩ := onCommand_whole whole
    exact ⟨reaction, sends⟩
  · exact ⟨_, onCommand_other unpicked whole⟩

/-- Of two different lines with the tokens of a whole line, only one is a command. -/
theorem whole_ne (whole : line ∈ wholeLines) (tokens : tokenize line' = [line]) (other : line' ≠ line) :
    battle.onCommand client line ≠ battle.onCommand client line' := by
  obtain ⟨reaction, frame, sends, sent⟩ := onCommand_whole whole
  have unpicked : ∀ token rest, tokenize line' = token :: rest → token ∉ digits := by
    intro token rest split digit
    rw [tokens] at split
    obtain ⟨rfl, rfl⟩ := List.cons_eq_cons.mp split
    exact (whole_tokens whole).2 digit
  have ignored : line' ∉ wholeLines := by
    intro whole'
    have split := (whole_tokens whole').1
    rw [tokens] at split
    exact other (List.cons_eq_cons.mp split).1.symm
  rw [sends, onCommand_other unpicked ignored]
  intro same
  have unsent := congrArg Reaction.client (Except.ok.inj same)
  rw [sent] at unsent
  exact send_ne frame unsent

/-- Any other two lines of the same tokens do the same when both or neither are a whole command. -/
theorem unpicked_iff (same : tokenize line = tokenize line')
    (unpicked : ∀ token rest, tokenize line = token :: rest → token ∉ digits) :
    battle.Agree client line line' ↔ ∀ word ∈ wholeLines, tokenize line = [word] → (line = word ↔ line' = word) := by
  have agree : battle.Agree client line line' ↔ battle.onCommand client line = battle.onCommand client line' := by
    obtain ⟨reaction, answer⟩ := @onCommand_total battle client line unpicked
    rw [Agree, answer]
    simp [eq_comm]
  rw [agree]
  by_cases whole : line ∈ wholeLines
  · have split := (whole_tokens whole).1
    by_cases equal : line' = line
    · subst equal
      exact iff_of_true rfl fun _ _ _ => Iff.rfl
    · apply iff_of_false (whole_ne whole (same.symm.trans split) equal)
      intro alike
      exact equal ((alike line whole split).mp rfl)
  by_cases whole' : line' ∈ wholeLines
  · have split := same.trans (whole_tokens whole').1
    have different : line ≠ line' := fun equal => whole (equal ▸ whole')
    apply iff_of_false (whole_ne whole' split different).symm
    intro alike
    exact different ((alike line' whole' split).mpr rfl)
  · have unpicked' : ∀ token rest, tokenize line' = token :: rest → token ∉ digits := by
      rw [← same]
      exact unpicked
    rw [onCommand_other unpicked whole, onCommand_other unpicked' whole']
    apply iff_of_true rfl
    intro word member _
    exact iff_of_false (fun equal => whole (equal ▸ member)) fun equal => whole' (equal ▸ member)

/-- A pick needs a flag that a request has set, and the same first character. Otherwise both
lines or neither are the whole command that their tokens spell. -/
def Alike (battle : BattleLayer) (line line' : String) : Prop :=
  (∀ token rest, tokenize line = token :: rest → token ∈ digits →
    battle.state.forceSwitch ≠ none ∧ line.toList.head? = line'.toList.head?) ∧
  ∀ word ∈ wholeLines, tokenize line = [word] → (line = word ↔ line' = word)

theorem agree_iff (same : tokenize line = tokenize line') :
    battle.Agree client line line' ↔ battle.Alike line line' := by
  by_cases picked : ∃ token rest, tokenize line = token :: rest ∧ token ∈ digits
  · obtain ⟨token, rest, tokens, digit⟩ := picked
    rw [pick_iff tokens (same.symm.trans tokens) digit]
    constructor
    · intro begins
      refine ⟨fun _ _ _ _ => begins, ?_⟩
      intro word whole split
      rw [tokens] at split
      obtain ⟨rfl, _⟩ := List.cons_eq_cons.mp split
      exact absurd digit (whole_tokens whole).2
    · intro alike
      exact alike.1 token rest tokens digit
  · have unpicked : ∀ token rest, tokenize line = token :: rest → token ∉ digits := by
      intro token rest tokens digit
      exact picked ⟨token, rest, tokens, digit⟩
    rw [unpicked_iff same unpicked]
    constructor
    · intro words
      refine ⟨?_, words⟩
      intro token rest tokens digit
      exact absurd digit (unpicked token rest tokens)
    · intro alike
      exact alike.2

/-- A pick is what its token names exactly when the line begins with it. -/
theorem onCommand_pick_iff (tokens : tokenize line = token :: rest) (digit : token ∈ digits) :
    (∃ switching, battle.state.forceSwitch = some switching ∧ battle.onCommand client line = .ok
      { layer := battle, client := client.send (battle.pickFrame switching token rest), handled := true }) ↔
      battle.state.forceSwitch ≠ none ∧ token.toList <+: line.toList := by
  have single : token.toList.length = 1 := by
    have every : ∀ token ∈ digits, token.toList.length = 1 := by decide
    exact every token digit
  have begins : initial line = token ↔ token.toList <+: line.toList := by
    rw [initial, List.prefix_iff_eq_take, single, ← String.toList_inj, String.toList_ofList, eq_comm]
  rw [onCommand_pick tokens digit, ← begins]
  cases forced : battle.state.forceSwitch with
  | none => simp
  | some switching => simp [isForceSwitch_known forced, Except.map, send_inj, pickFrame_inj]

/-- What a battle does with a line of commands is said by its tokens when every other line
of the same tokens is like it. -/
theorem command_tokens_iff (same : tokenize line = tokenize line') :
    ((∃ reaction, battle.onEvent world this client (.command line) = .ok reaction ∧
        battle.onEvent world this client (.command line') = .ok reaction) ↔
      battle.Alike line line') ∧
    ∀ token rest, tokenize line = token :: rest → token ∈ digits →
      ((∃ switching, battle.state.forceSwitch = some switching ∧
        battle.onEvent world this client (.command line) = .ok
          { layer := battle, client := client.send (battle.pickFrame switching token rest), handled := true }) ↔
        battle.state.forceSwitch ≠ none ∧ token.toList <+: line.toList) :=
  ⟨agree_iff same, fun _ _ tokens digit => onCommand_pick_iff tokens digit⟩

private def mute : World := { parse := fun _ => none, assertions := fun _ => "" }

private def choosing : BattleLayer := { state := { forceSwitch := some false }, battleRoom := "battle-1" }

theorem command_tokens_iff_tera :
    ((∃ reaction, choosing.onEvent mute 0 {} (.command "2 tera") = .ok reaction ∧
        choosing.onEvent mute 0 {} (.command "2\t tera ") = .ok reaction) ↔
      choosing.Alike "2 tera" "2\t tera ") ∧
    ∀ token rest, tokenize "2 tera" = token :: rest → token ∈ digits →
      ((∃ switching, choosing.state.forceSwitch = some switching ∧
        choosing.onEvent mute 0 {} (.command "2 tera") = .ok
          { layer := choosing, client := PsClient.send {} (choosing.pickFrame switching token rest), handled := true }) ↔
        choosing.state.forceSwitch ≠ none ∧ token.toList <+: "2 tera".toList) :=
  command_tokens_iff (by decide)

/-- A space in front hides a forfeit, and takes the place of the number in a pick. -/
theorem leading_space_misread :
    (tokenize " f" = tokenize "f" ∧
      choosing.onEvent mute 0 {} (.command " f") ≠ choosing.onEvent mute 0 {} (.command "f")) ∧
    tokenize " 1" = tokenize "1" ∧
      (choosing.onEvent mute 0 {} (.command " 1")).toOption.map (fun reaction => reaction.client.sent) =
        some ["battle-1|/choose move  "] := by
  refine ⟨⟨by decide, ?_⟩, by decide, by decide +kernel⟩
  intro same
  have sent := congrArg (fun result => result.toOption.map fun reaction => reaction.client.sent) same
  exact absurd sent (by decide +kernel)

end ShowdownCli.BattleLayer
