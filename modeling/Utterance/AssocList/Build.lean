import Utterance.AssocList
import Utterance.Cursor

/-!
# Slots of a derivation

The association list of a derivation. A node whose name starts with a marker character opens a phrase.
A node without a small letter in its name is a slot: its value is the name of its first inner node,
or the words it covers if it has none or its name starts with a caret, which is not part of the slot.
Any other node gives the entries of its inner nodes.
-/

namespace Utterance.AssocList

/-- The pieces of text that the focus and the nodes beside it give. With `closing` set every phrase is
closed by its bare marker. -/
def nodePieces (g : Grammar) (spelling : List String) (closing : Bool) (c : Cursor) :
    Except Cursor.Stop (List String) :=
  match Cursor.here c (c.focus g) with
  | .error e => .error e
  | .ok label =>
    let name := label.getD ""
    let marker := (name.toList.head?.filter isMarkerChar).map String.singleton
    let opened := if marker.isSome then ["\t" ++ name] else []
    let inside : Except Cursor.Stop (List String) :=
      if !name.toList.any Text.isLower then
        let slot := "\t" ++ Text.trimStartWhile (· == '^') name ++ "="
        let inner := if name.toList.head? == some '^' then .ok none else c.down g
        match inner with
        | .error e => .error (e, c)
        | .ok (some inner) =>
          match Cursor.here inner (inner.focus g) with
          | .error e => .error e
          | .ok value => .ok [slot, value.getD ""]
        | .ok none =>
          match Cursor.here c (c.span g) with
          | .error e => .error e
          | .ok none => .error (.noSpan, c)
          | .ok (some (first, last)) => .ok [slot, Cursor.wordsText spelling first last]
      else
        match _hd : c.down g with
        | .error e => .error (e, c)
        | .ok (some inner) => nodePieces g spelling closing inner
        | .ok none => .ok []
    match inside with
    | .error e => .error e
    | .ok inside =>
      let closed := if closing then (marker.map ("\t" ++ ·)).toList else []
      match _hn : c.next g with
      | .error e => .error (e, c)
      | .ok (some beside) =>
        match nodePieces g spelling closing beside with
        | .error e => .error e
        | .ok more => .ok (opened ++ inside ++ closed ++ more)
      | .ok none => .ok (opened ++ inside ++ closed)
termination_by c.extent g
decreasing_by
  · exact Cursor.extent_down _hd
  · exact Cursor.extent_next _hn

/-- The association list of the derivation that a cursor points at the root of. -/
def build (g : Grammar) (spelling : List String) (closing : Bool) (c : Cursor) :
    Except Cursor.Stop AssocList :=
  (nodePieces g spelling closing c).map fun pieces => ⟨String.join pieces⟩

end Utterance.AssocList
