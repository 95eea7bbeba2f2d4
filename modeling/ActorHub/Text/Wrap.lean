import ActorHub.Text.Blank

/-!
# Word wrap and descriptions

`wrap` fills lines greedily: runs of white space become one space and a word longer than a line is
cut where the line is full. `Description.render` puts labels in a right-aligned column and wraps
the values beside them.
-/

namespace ActorHub.Text

/-- The outcome of placing one word: the lines closed on the way and the line left open. -/
structure Placed where
  closed : List (List Char)
  current : List Char

/-- The open line with a piece added after a space, if the line holds anything. -/
def joinWord (line piece : List Char) : List Char :=
  if line = [] then piece else line ++ ' ' :: piece

/-- Places a word on the open line or on lines of its own. -/
def place (width : Nat) (line word : List Char) : Placed :=
  if (joinWord line word).length ≤ width then ⟨[], joinWord line word⟩
  else if hlong : width < word.length then
    -- the word is cut at the end of what is left of this line
    let room := if line = [] then width else width - (line.length + 1)
    if _ : room = 0 then
      if _ : line = [] then ⟨[], word⟩
      else
        let rest := place width [] word
        ⟨line :: rest.closed, rest.current⟩
    else
      let rest := place width [] (word.drop room)
      ⟨joinWord line (word.take room) :: rest.closed, rest.current⟩
  else ⟨[line], word⟩
termination_by (word.length, line.length)
decreasing_by
  · apply Prod.Lex.right
    simp only [List.length_nil]
    exact List.length_pos_iff.mpr ‹_›
  · apply Prod.Lex.left
    simp only [List.length_drop]
    omega

/-- Places words one after another behind the open line. -/
def fill (width : Nat) : List Char → List (List Char) → List (List Char) → List (List Char)
  | line, closed, [] => if line = [] && closed != [] then closed else closed ++ [line]
  | line, closed, word :: rest =>
    let placed := place width line word
    fill width placed.current (closed ++ placed.closed) rest

/-- The lines of a text, none longer than a positive width. -/
def wrap (width : Nat) (text : String) : List String :=
  (fill width [] [] (words text.toList)).map String.ofList

end ActorHub.Text

namespace ActorHub

/-! ## Descriptions -/

/-- One line of a plain text description. -/
structure Descriptor where
  label : String
  value : String

namespace Descriptor

/-- Values are wrapped to this many characters. -/
def valueWidth : Nat := 66

def labelWidth : Nat := 12

def alignLabel (label : String) : String :=
  "".pushn ' ' (labelWidth - label.length) ++ label ++ ": "

def render (d : Descriptor) : String :=
  let continuation := "\n".pushn ' ' (labelWidth + 2)
  alignLabel d.label ++ continuation.intercalate (Text.wrap valueWidth d.value)

/-- The descriptors one below the other, without a final newline. -/
def renderAll (ds : List Descriptor) : String :=
  "\n".intercalate (ds.map render)

end Descriptor

end ActorHub
