import Mathlib
import InvariantMachine.Json.Reader
import InvariantMachine.Json.Writer

/-!
# Texts of JSON documents

A text spells a document if it is the text of its leaves between brackets, braces, colons and
commas, with blanks allowed around all of these. The compact and the pretty text of a document
spell it.
-/

namespace InvariantMachine.Json

def Blanks (w : List Char) : Prop := ∀ c ∈ w, Reading.isBlank c

theorem blanks_nil : Blanks [] := fun _ h => nomatch h

def isLeaf : Json → Bool
  | array _ | object _ => false
  | _ => true

mutual

/-- The text is one of the document, without blanks around it. -/
inductive Spells : Json → List Char → Prop
  | leaf {document : Json} (h : document.isLeaf) : Spells document document.leafText.toList
  | array {items : List Json} {cs : List Char} (h : SpellsItems items cs) :
      Spells (array items) ('[' :: (cs ++ [']']))
  | object {fields : List (String × Json)} {cs : List Char} (h : SpellsFields fields cs) :
      Spells (object fields) ('{' :: (cs ++ ['}']))

/-- The text is one of the items between brackets. -/
inductive SpellsItems : List Json → List Char → Prop
  | nil {w : List Char} (hw : Blanks w) : SpellsItems [] w
  | cons {w cs tail : List Char} {item : Json} {items : List Json} (hw : Blanks w)
      (h : Spells item cs) (ht : SpellsMoreItems items tail) :
      SpellsItems (item :: items) (w ++ (cs ++ tail))

inductive SpellsMoreItems : List Json → List Char → Prop
  | nil {w : List Char} (hw : Blanks w) : SpellsMoreItems [] w
  | cons {w cs : List Char} {item : Json} {items : List Json} (hw : Blanks w)
      (h : SpellsItems (item :: items) cs) : SpellsMoreItems (item :: items) (w ++ ',' :: cs)

/-- The text is one of the fields between braces. -/
inductive SpellsFields : List (String × Json) → List Char → Prop
  | nil {w : List Char} (hw : Blanks w) : SpellsFields [] w
  | cons (name : String) {w before after cs tail : List Char} {content : Json}
      {fields : List (String × Json)} (hw : Blanks w) (hbefore : Blanks before)
      (hafter : Blanks after) (h : Spells content cs) (ht : SpellsMoreFields fields tail) :
      SpellsFields ((name, content) :: fields)
        (w ++ ((quote name).toList ++ (before ++ ':' :: (after ++ (cs ++ tail)))))

inductive SpellsMoreFields : List (String × Json) → List Char → Prop
  | nil {w : List Char} (hw : Blanks w) : SpellsMoreFields [] w
  | cons {w cs : List Char} {field : String × Json} {fields : List (String × Json)}
      (hw : Blanks w) (h : SpellsFields (field :: fields) cs) :
      SpellsMoreFields (field :: fields) (w ++ ',' :: cs)

end

mutual

theorem spells_compact : ∀ document : Json, Spells document document.compact.toList
  | .array items => by
    simpa [compact] using Spells.array (spellsItems_compact items)
  | .object fields => by
    simpa [compact] using Spells.object (spellsFields_compact fields)
  | .null => .leaf rfl
  | .boolean _ => .leaf rfl
  | .integer _ => .leaf rfl
  | .number _ => .leaf rfl
  | .string _ => .leaf rfl

theorem spellsItems_compact : ∀ items : List Json, SpellsItems items (compactItems items).toList
  | [] => .nil blanks_nil
  | [item] => by
    simpa [compactItems] using
      SpellsItems.cons blanks_nil (spells_compact item) (.nil blanks_nil)
  | item :: next :: items => by
    simpa [compactItems] using SpellsItems.cons blanks_nil (spells_compact item)
      (.cons blanks_nil (spellsItems_compact (next :: items)))

theorem spellsFields_compact : ∀ fields : List (String × Json),
    SpellsFields fields (compactFields fields).toList
  | [] => .nil blanks_nil
  | [(name, content)] => by
    simpa [compactFields] using SpellsFields.cons name blanks_nil blanks_nil blanks_nil
      (spells_compact content) (.nil blanks_nil)
  | (name, content) :: next :: fields => by
    simpa [compactFields] using SpellsFields.cons name blanks_nil blanks_nil blanks_nil
      (spells_compact content) (.cons blanks_nil (spellsFields_compact (next :: fields)))

end

theorem blanks_newLine (level : Nat) : Blanks (newLine level).toList := by
  intro c hc
  rw [newLine, String.toList_ofList, List.mem_cons] at hc
  rcases hc with rfl | hc
  · rfl
  · rw [List.eq_of_mem_replicate hc]
    rfl

theorem blanks_singleton_space : Blanks [' '] := by
  intro c hc
  rw [List.mem_singleton.mp hc]
  rfl

mutual

theorem spells_prettyAt (level : Nat) : ∀ document : Json,
    Spells document (prettyAt level document).toList
  | .array [] => by simpa [prettyAt] using Spells.array (.nil blanks_nil)
  | .array (item :: items) => by
    simpa [prettyAt] using Spells.array
      (spellsItems_pretty (level + 1) (item :: items) (blanks_newLine level))
  | .object [] => by simpa [prettyAt] using Spells.object (.nil blanks_nil)
  | .object (field :: fields) => by
    simpa [prettyAt] using Spells.object
      (spellsFields_pretty (level + 1) (field :: fields) (blanks_newLine level))
  | .null => .leaf rfl
  | .boolean _ => .leaf rfl
  | .integer _ => .leaf rfl
  | .number _ => .leaf rfl
  | .string _ => .leaf rfl

theorem spellsItems_pretty (level : Nat) : ∀ (items : List Json) {w : List Char}, Blanks w →
    SpellsItems items ((prettyItems level items).toList ++ w)
  | [], _, hw => by simpa [prettyItems] using SpellsItems.nil hw
  | [item], _, hw => by
    simpa [prettyItems] using
      SpellsItems.cons (blanks_newLine level) (spells_prettyAt level item) (.nil hw)
  | item :: next :: items, _, hw => by
    simpa [prettyItems] using SpellsItems.cons (blanks_newLine level) (spells_prettyAt level item)
      (.cons blanks_nil (spellsItems_pretty level (next :: items) hw))

theorem spellsFields_pretty (level : Nat) : ∀ (fields : List (String × Json)) {w : List Char},
    Blanks w → SpellsFields fields ((prettyFields level fields).toList ++ w)
  | [], _, hw => by simpa [prettyFields] using SpellsFields.nil hw
  | [(name, content)], _, hw => by
    simpa [prettyFields] using SpellsFields.cons name (blanks_newLine level) blanks_nil
      blanks_singleton_space (spells_prettyAt level content) (.nil hw)
  | (name, content) :: next :: fields, _, hw => by
    simpa [prettyFields] using SpellsFields.cons name (blanks_newLine level) blanks_nil
      blanks_singleton_space (spells_prettyAt level content)
      (.cons blanks_nil (spellsFields_pretty level (next :: fields) hw))

end

theorem spells_pretty (document : Json) : Spells document document.pretty.toList :=
  spells_prettyAt 0 document

end InvariantMachine.Json
