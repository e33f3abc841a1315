import Mathlib.Data.List.TakeWhile
import ShowdownCli.Library.Form
import ShowdownCli.Auth

/-! What the login server reads from the body of a request. The fields are joined
without escaping, so only plain credentials arrive as they were. -/

namespace ShowdownCli.Auth
open Library

/-- The fields a request is meant to carry. -/
def fields (username password challstr : String) : List (List Char × List Char) :=
  [("act".toList, "login".toList), ("name".toList, username.toList), ("pass".toList, password.toList),
    ("challstr".toList, challstr.toList)]

theorem postFields_toList (username password challstr : String) :
    (postFields username password challstr).toList = "act=login&name=".toList ++ username.toList ++
      "&pass=".toList ++ password.toList ++ "&challstr=".toList ++ challstr.toList := by
  unfold postFields
  simp only [String.toList_append]

theorem postFields_join (username password challstr : String) :
    (postFields username password challstr).toList = Form.join (fields username password challstr) := by
  have name : "act=login&name=".toList = "act".toList ++ '=' :: ("login".toList ++ '&' :: ("name".toList ++ ['='])) :=
    rfl
  have pass : "&pass=".toList = '&' :: ("pass".toList ++ ['=']) := rfl
  have challenge : "&challstr=".toList = '&' :: ("challstr".toList ++ ['=']) := rfl
  rw [postFields_toList, name, pass, challenge]
  simp only [fields, Form.join, List.map_cons, List.map_nil, List.intercalate_cons_cons, List.intercalate_singleton,
    List.append_assoc, List.cons_append, List.nil_append]

theorem body_join {username password challstr : String} (name : '\x00' ∉ username.toList)
    (pass : '\x00' ∉ password.toList) (challenge : '\x00' ∉ challstr.toList) :
    (requestBody username password challstr).toList = Form.join (fields username password challstr) := by
  have absent : '\x00' ∉ (postFields username password challstr).toList := by
    rw [postFields_toList]
    simp only [List.mem_append, name, pass, challenge, or_false]
    decide
  have whole : ∀ c ∈ (postFields username password challstr).toList, decide (c ≠ '\x00') = true := by
    intro c member
    exact decide_eq_true fun zero => absent (zero ▸ member)
  rw [requestBody, String.toList_ofList, ← postFields_join, List.takeWhile_eq_self_iff.mpr whole]

theorem names_proper (username password challstr : String) :
    ∀ field ∈ fields username password challstr, Form.Name field.1 := by
  intro field member
  simp only [fields, List.mem_cons, List.not_mem_nil, or_false] at member
  rcases member with rfl | rfl | rfl | rfl
  all_goals exact .letters rfl

/-- The server reads the four fields exactly when the three credentials are plain. -/
theorem decode_body_iff (username password challstr : String) (name : '\x00' ∉ username.toList)
    (pass : '\x00' ∉ password.toList) (challenge : '\x00' ∉ challstr.toList) :
    Form.decode (requestBody username password challstr).toList = fields username password challstr ↔
      Form.Plain username.toList ∧ Form.Plain password.toList ∧ Form.Plain challstr.toList := by
  have action : Form.Plain "login".toList := .letters rfl
  have proper := names_proper username password challstr
  rw [body_join name pass challenge, Form.decode_join (by simp [fields]) proper]
  simp only [fields, List.forall_mem_cons, action]
  simp

theorem decode_body_iff_plain :
    Form.decode (requestBody "ash" "pika chu" "4|a=b").toList = fields "ash" "pika chu" "4|a=b" ↔
      Form.Plain "ash".toList ∧ Form.Plain "pika chu".toList ∧ Form.Plain "4|a=b".toList :=
  decode_body_iff "ash" "pika chu" "4|a=b" (by decide) (by decide) (by decide)

/-- A password with a separator in it overrides the name. -/
theorem password_renames :
    Form.decode (requestBody "ash" "pika&name=gary" "4|ab").toList ≠ fields "ash" "pika&name=gary" "4|ab" ∧
      ("name".toList, "gary".toList) ∈ Form.decode (requestBody "ash" "pika&name=gary" "4|ab").toList := by
  decide

end ShowdownCli.Auth
