import ShowdownCli.Config
import ShowdownCli.Proofs.JsonOrder

/-! Configurations by the names of their members. The loader goes by position, so a name
counts only where it stands at its own place. -/

namespace ShowdownCli.JsonLoader
open Library Library.Ordered

variable {α : Type} {fields : List (String → α → α)} {values : List Json} {index : Nat} {before after : α}

/-- The loader takes as many values as there are fields, and they have to be strings. -/
theorem assign_ok : assign values index fields before = .ok after ↔ ∃ args : List String,
    args.length = fields.length ∧ (values.drop index).take fields.length = args.map Json.string ∧
      after = (fields.zip args).foldl (fun cfg pair => pair.1 pair.2 cfg) before := by
  induction fields generalizing index before with
  | nil =>
    simp only [assign, Except.ok.injEq, List.length_nil, List.length_eq_zero_iff]
    simp [eq_comm]
  | cons field fields ih =>
    unfold assign
    cases here : values[index]? with
    | none =>
      have behind := List.drop_eq_nil_of_le (List.getElem?_eq_none_iff.mp here)
      refine iff_of_false (by simp) ?_
      rintro ⟨args, length, taken, _⟩
      have empty := congrArg List.length taken
      rw [behind, List.take_nil, List.length_map, length] at empty
      cases empty
    | some value =>
      obtain ⟨inside, here⟩ := List.getElem?_eq_some_iff.mp here
      simp only [except_bind_ok, Json.getString_ok, ih, List.drop_eq_getElem_cons inside, here, List.length_cons,
        List.take_succ_cons]
      constructor
      · rintro ⟨arg, rfl, args, length, taken, last⟩
        exact ⟨arg :: args, congrArg (· + 1) length, by rw [taken, List.map_cons], last⟩
      · rintro ⟨args, length, taken, last⟩
        cases args with
        | nil => cases length
        | cons arg args =>
          obtain ⟨first, rest⟩ := List.cons.inj taken
          exact ⟨arg, first, args, Nat.succ.inj length, rest, last⟩

end ShowdownCli.JsonLoader

namespace ShowdownCli.NetConfig
open Library Library.Ordered

variable {parse : String → Option Json} {text port url path : String} {members : List (String × Json)}

/-- The names of the fields, in the order of `as_tuple_impl`. -/
def names : List String := ["ps_server_port", "ps_server_url", "ps_websocket_path"]

theorem load_iff {j : Json} (cfg : NetConfig) (parsed : parse text = some j) :
    JsonLoader.load parse cfg (some text) = .ok { psServerPort := port, psServerUrl := url, psWebsocketPath := path } ↔
      j.elements.take 3 = [.string port, .string url, .string path] := by
  simp only [JsonLoader.load, parsed, Config.asTuple, JsonLoader.assign_ok, List.drop_zero, List.length_cons,
    List.length_nil, Nat.zero_add, Nat.reduceAdd]
  constructor
  · rintro ⟨args, length, taken, same⟩
    obtain ⟨first, second, third, rfl⟩ := List.length_eq_three.mp length
    cases same
    exact taken
  · intro taken
    exact ⟨[port, url, path], rfl, taken, rfl⟩

/-- The member stands where the field of its name does, or has the value that belongs there. -/
def InPlace (field : String × String) (member : String × Json) : Prop :=
  member.1 = field.1 ∨ member.2 = .string field.2

theorem in_place_iff {fields : List (String × String)} {part : List (String × Json)} (increasing : Increasing members)
    (found : ∀ field ∈ fields, members.lookup field.1 = some (.string field.2)) (inside : part ⊆ members) :
    List.Forall₂ InPlace fields part ↔ part.map Prod.snd = fields.map fun field => Json.string field.2 := by
  induction fields generalizing part with
  | nil => simp
  | cons field fields ih =>
    cases part with
    | nil => simp
    | cons member part =>
      have here : InPlace field member ↔ member.2 = .string field.2 := by
        refine or_iff_right_of_imp fun named => ?_
        have own : members.lookup member.1 = some member.2 := increasing.lookup (inside List.mem_cons_self)
        rw [named, found field List.mem_cons_self] at own
        exact (Option.some.inj own).symm
      have later := ih (fun other member => found other (List.mem_cons_of_mem _ member))
        fun other member => inside (List.mem_cons_of_mem _ member)
      rw [List.forall₂_cons, here, later, List.map_cons, List.map_cons, List.cons_eq_cons]

theorem in_place_of_names {fields : List (String × String)} {part : List (String × Json)}
    (named : fields.map Prod.fst = part.map Prod.fst) : List.Forall₂ InPlace fields part := by
  rw [← List.forall₂_eq_eq_eq, List.forall₂_map_left_iff, List.forall₂_map_right_iff] at named
  exact named.imp fun _ _ same => Or.inl same.symm

/-- The fields get the values of their names exactly when the first three members are in place, and
they are if no other name comes before the last of the three. -/
theorem load_by_name_iff (ordered : Json.Orders parse) (parsed : parse text = some (.object members))
    (hasPort : members.lookup "ps_server_port" = some (.string port))
    (hasUrl : members.lookup "ps_server_url" = some (.string url))
    (hasPath : members.lookup "ps_websocket_path" = some (.string path)) (cfg : NetConfig) :
    (JsonLoader.load parse cfg (some text) =
        .ok { psServerPort := port, psServerUrl := url, psWebsocketPath := path } ↔
      List.Forall₂ InPlace
        [("ps_server_port", port), ("ps_server_url", url), ("ps_websocket_path", path)] (members.take 3)) ∧
    ((∀ key ∈ members.map Prod.fst, key ∉ names → "ps_websocket_path" < key) →
      JsonLoader.load parse cfg (some text) =
        .ok { psServerPort := port, psServerUrl := url, psWebsocketPath := path }) := by
  have increasing := (ordered text _ parsed).increasing
  have found : ∀ field ∈ [("ps_server_port", port), ("ps_server_url", url), ("ps_websocket_path", path)],
      members.lookup field.1 = some (.string field.2) := by
    simp [hasPort, hasUrl, hasPath]
  have loaded : JsonLoader.load parse cfg (some text) =
      .ok { psServerPort := port, psServerUrl := url, psWebsocketPath := path } ↔ List.Forall₂ InPlace
        [("ps_server_port", port), ("ps_server_url", url), ("ps_websocket_path", path)] (members.take 3) := by
    rw [load_iff cfg parsed, in_place_iff increasing found (List.take_subset _ _), List.map_take]
    rfl
  refine ⟨loaded, fun last => loaded.mpr (in_place_of_names ?_)⟩
  have present : names ⊆ members.map Prod.fst := by
    intro name member
    simp only [names, List.mem_cons, List.not_mem_nil, or_false] at member
    rcases member with rfl | rfl | rfl
    · exact List.mem_map_of_mem (lookup_mem hasPort)
    · exact List.mem_map_of_mem (lookup_mem hasUrl)
    · exact List.mem_map_of_mem (lookup_mem hasPath)
  have least : ∀ key ∈ members.map Prod.fst, key ∉ names → ∀ name ∈ names, name < key := by
    intro key member foreign name among
    have within : ∀ name ∈ names, name ≤ "ps_websocket_path" := by decide
    exact lt_of_le_of_lt (within name among) (last key member foreign)
  have first := prefix_of_least (by decide) increasing.keys present least
  rw [List.map_take]
  exact List.prefix_iff_eq_take.mp first

private def shuffled : String :=
  "\x7b\"timeout\":30,\"ps_websocket_path\":\"/showdown/websocket\",\"ps_server_url\":\"sim.smogon.com\"," ++
    "\"ps_server_port\":\"443\"\x7d"

private def commented : String :=
  "\x7b\"comment\":\"local server\",\"ps_server_port\":\"8000\",\"ps_server_url\":\"localhost\"," ++
    "\"ps_websocket_path\":\"/showdown/websocket\"\x7d"

private def netConfig (text : String) : Option Json :=
  if text = shuffled then some (.object [("ps_server_port", .string "443"), ("ps_server_url", .string "sim.smogon.com"),
    ("ps_websocket_path", .string "/showdown/websocket"), ("timeout", .integer 30)])
  else if text = commented then some (.object [("comment", .string "local server"), ("ps_server_port", .string "8000"),
    ("ps_server_url", .string "localhost"), ("ps_websocket_path", .string "/showdown/websocket")])
  else none

private theorem netConfig_orders : Json.Orders netConfig := by
  intro text j parsed
  unfold netConfig at parsed
  split at parsed
  next =>
    cases parsed
    refine .object (by decide) ?_
    simp only [List.forall_mem_cons]
    exact ⟨.string _, .string _, .string _, .integer _, by simp⟩
  next =>
    split at parsed
    next =>
      cases parsed
      refine .object (by decide) ?_
      simp only [List.forall_mem_cons]
      exact ⟨.string _, .string _, .string _, .string _, by simp⟩
    next => cases parsed

private def official : NetConfig :=
  { psServerPort := "443", psServerUrl := "sim.smogon.com", psWebsocketPath := "/showdown/websocket" }

theorem load_by_name_shuffled :
    (JsonLoader.load netConfig ({} : NetConfig) (some shuffled) = .ok official ↔
      List.Forall₂ InPlace [("ps_server_port", "443"), ("ps_server_url", "sim.smogon.com"),
        ("ps_websocket_path", "/showdown/websocket")] (List.take 3 [("ps_server_port", .string "443"),
          ("ps_server_url", .string "sim.smogon.com"), ("ps_websocket_path", .string "/showdown/websocket"),
          ("timeout", .integer 30)])) ∧
    ((∀ key ∈ ["ps_server_port", "ps_server_url", "ps_websocket_path", "timeout"], key ∉ names →
        "ps_websocket_path" < key) →
      JsonLoader.load netConfig ({} : NetConfig) (some shuffled) = .ok official) :=
  load_by_name_iff netConfig_orders rfl rfl rfl rfl {}

/-- A comment moves every value to the next field. -/
theorem comment_shifts : JsonLoader.load netConfig ({} : NetConfig) (some commented) =
      .ok { psServerPort := "local server", psServerUrl := "8000", psWebsocketPath := "localhost" } ∧
    JsonLoader.load netConfig ({} : NetConfig) (some commented) ≠
      .ok { psServerPort := "8000", psServerUrl := "localhost", psWebsocketPath := "/showdown/websocket" } := by
  have loaded : JsonLoader.load netConfig ({} : NetConfig) (some commented) =
      .ok { psServerPort := "local server", psServerUrl := "8000", psWebsocketPath := "localhost" } := rfl
  refine ⟨loaded, ?_⟩
  rw [loaded]
  simp

end ShowdownCli.NetConfig
