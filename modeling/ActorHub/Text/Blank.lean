/-!
# White space

The characters of the Unicode property White_Space, and the two ways text is cut at them:
`trim` drops them at both ends, `words` keeps what lies between them.
-/

namespace ActorHub.Text

def isBlank (c : Char) : Bool :=
  let n := c.toNat
  (0x9 ≤ n && n ≤ 0xd) || n == 0x20 || n == 0x85 || n == 0xa0 || n == 0x1680
    || (0x2000 ≤ n && n ≤ 0x200a) || n == 0x2028 || n == 0x2029 || n == 0x202f
    || n == 0x205f || n == 0x3000

def dropBlanks (cs : List Char) : List Char :=
  cs.dropWhile isBlank

def trim (cs : List Char) : List Char :=
  (dropBlanks (dropBlanks cs).reverse).reverse

theorem length_dropBlanks_le (cs : List Char) : (dropBlanks cs).length ≤ cs.length :=
  (List.dropWhile_suffix isBlank).length_le

/-- The maximal runs of characters that are not blank, in order. -/
def words (cs : List Char) : List (List Char) :=
  match _ : dropBlanks cs with
  | [] => []
  | c :: rest =>
    (c :: rest.takeWhile (fun c => !isBlank c)) :: words (rest.dropWhile (fun c => !isBlank c))
termination_by cs.length
decreasing_by
  have h1 := length_dropBlanks_le cs
  have h2 := (List.dropWhile_suffix (l := rest) (fun c => !isBlank c)).length_le
  rw [‹dropBlanks cs = c :: rest›] at h1
  simp only [List.length_cons] at h1
  omega

end ActorHub.Text
