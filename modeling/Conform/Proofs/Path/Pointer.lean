import Conform.Source
import Mathlib.Data.List.Infix

/-! Pointers as texts. An escaped token has no slash, so a pointer can be taken apart at its slashes: it tells
the texts of the tokens on the path, and what the search climbs to from it are the pointers of the paths in
front, the longest first. Escapes are read back in the order opposite to their making, slashes before tildes:
then a tilde that was escaped stands before a zero, and is not taken for half of a slash. -/

namespace Conform

namespace Pointer

theorem join_append (a b : String) (token : Value) : join (a ++ b) token = a ++ join b token :=
  String.append_assoc ..

theorem join_of_text_eq {token : Value} {cs : List Char} (h : token.text = cs) (base : String) :
    join base token = join base (.str (String.ofList cs)) := by
  rw [join, join, h, Value.text, String.toList_ofList]

/-- The text with each pair of `a` and `b` in it replaced by `r`, from the left. -/
def replacePair (a b r : Char) : List Char → List Char
  | c :: d :: cs =>
    if c = a ∧ d = b then r :: replacePair a b r cs else c :: replacePair a b r (d :: cs)
  | cs => cs

def unescape (cs : List Char) : List Char :=
  replacePair '~' '0' '~' (replacePair '~' '1' '/' cs)

/-- What stands between the slashes of a pointer and behind the last one, unescaped; nothing in the empty
pointer. -/
def tokens (pointer : String) : List (List Char) :=
  match pointer.toList with
  | [] => []
  | _ :: cs => (cs.splitOn '/').map unescape

theorem replacePair_cons {a b r c : Char} (h : c ≠ a) (cs : List Char) :
    replacePair a b r (c :: cs) = c :: replacePair a b r cs := by
  cases cs with
  | nil => rfl
  | cons d cs => simp [replacePair, h]

/-- With the slashes read back only the tildes are escaped. -/
theorem replacePair_escape (cs : List Char) :
    replacePair '~' '1' '/' (escape cs) = cs.flatMap fun c => if c = '~' then ['~', '0'] else [c] := by
  induction cs with
  | nil => rfl
  | cons c cs ih =>
    rw [escape, List.flatMap_cons, ← escape, List.flatMap_cons, ← ih]
    by_cases ht : c = '~'
    · subst ht
      have hz : replacePair '~' '1' '/' ('0' :: escape cs) = '0' :: replacePair '~' '1' '/' (escape cs) :=
        replacePair_cons (by decide) _
      simpa [escapeChar, replacePair] using hz
    · by_cases hs : c = '/'
      · subst hs
        simp [escapeChar, replacePair]
      · have hc : escapeChar c = [c] := by
          unfold escapeChar
          split <;> simp_all
        rw [hc, if_neg ht, List.singleton_append, List.singleton_append, replacePair_cons ht]

theorem replacePair_tildes (cs : List Char) :
    replacePair '~' '0' '~' (cs.flatMap fun c => if c = '~' then ['~', '0'] else [c]) = cs := by
  induction cs with
  | nil => rfl
  | cons c cs ih =>
    rw [List.flatMap_cons]
    by_cases ht : c = '~'
    · subst ht
      simp [replacePair, ih]
    · rw [if_neg ht, List.singleton_append, replacePair_cons ht, ih]

theorem unescape_escape (cs : List Char) : unescape (escape cs) = cs := by
  rw [unescape, replacePair_escape, replacePair_tildes]

theorem slash_not_mem_escape (cs : List Char) : '/' ∉ escape cs := by
  intro h
  obtain ⟨c, -, hc⟩ := List.mem_flatMap.1 h
  unfold escapeChar at hc
  split at hc
  · simp at hc
  · simp at hc
  · next hs => exact hs (List.mem_singleton.1 hc).symm

theorem ancestors_append {a : List Char} (ha : '/' ∉ a) (front r : List Char) :
    ancestors front (a ++ r) = ancestors (a.reverse ++ front) r := by
  induction a generalizing front with
  | nil => rfl
  | cons c a ih =>
    rw [List.mem_cons, not_or] at ha
    have hc : c ≠ '/' := fun h => ha.1 h.symm
    simp [ancestors, hc, ih ha.2]

end Pointer

theorem Value.text_index_injective {i j : Nat}
    (h : (Value.int i).text = (Value.int j).text) : i = j := by
  have hd : Nat.toDigits 10 i = Nat.toDigits 10 j := h
  calc
    i = Nat.ofDigitChars 10 (Nat.toDigits 10 i) 0 := Nat.ofDigitChars_ten_toDigits.symm
    _ = Nat.ofDigitChars 10 (Nat.toDigits 10 j) 0 := by rw [hd]
    _ = j := Nat.ofDigitChars_ten_toDigits

namespace Path

open Pointer

/-- The characters of the pointer of a path. -/
def chars (p : Path) : List Char := p.flatMap fun t => '/' :: escape t.text

theorem toList_pointer (p : Path) : p.pointer.toList = p.chars := by
  have foldl_join (base : String) (p : Path) : (p.foldl join base).toList = base.toList ++ p.chars := by
    induction p generalizing base with
    | nil => simp [chars]
    | cons t p ih => simp [ih, join, chars]
  rw [pointer, foldl_join]
  rfl

theorem isRooted_chars (p : Path) : isRooted p.chars = true := by
  cases p with
  | nil => rfl
  | cons t p => simp [chars, isRooted]

theorem chars_cons (t : Value) (p : Path) :
    chars (t :: p) = '/' :: ['/'].intercalate ((t :: p).map fun u => escape u.text) := by
  induction p generalizing t with
  | nil => simp [chars, List.intercalate]
  | cons u p ih =>
    have h : chars (t :: u :: p) = '/' :: (escape t.text ++ chars (u :: p)) := rfl
    rw [h, ih]
    simp [List.intercalate]

theorem tokens_pointer (p : Path) : tokens p.pointer = p.map Value.text := by
  cases p with
  | nil => rfl
  | cons t p =>
    have hs : ∀ l ∈ (t :: p).map fun u => escape u.text, '/' ∉ l := by
      intro l hl
      obtain ⟨u, -, rfl⟩ := List.mem_map.1 hl
      exact slash_not_mem_escape u.text
    rw [tokens, toList_pointer, chars_cons]
    simp only [List.splitOn_intercalate _ hs (List.cons_ne_nil _ _), List.map_map]
    refine List.map_congr_left fun u _ => ?_
    exact unescape_escape u.text

theorem pointer_injective {p q : Path} (h : p.pointer = q.pointer) :
    p.map Value.text = q.map Value.text := by
  rw [← tokens_pointer, ← tokens_pointer, h]

example : tokens "/~01//a~1b" = ["~1".toList, [], "a/b".toList] := by decide

/-- What the search climbs to, with what has been passed in front. -/
theorem cons_ancestors_eq (p : Path) (front : List Char) :
    (front ++ chars p) :: ancestors front.reverse (chars p) =
      (p.inits.map fun q => front ++ chars q).reverse := by
  induction p generalizing front with
  | nil => simp [chars, ancestors]
  | cons t p ih =>
    have ha : ancestors front.reverse (chars (t :: p)) =
        ancestors (front ++ '/' :: escape t.text).reverse (chars p) ++ [front] := by
      rw [chars, List.flatMap_cons, List.cons_append, ancestors,
        ancestors_append (slash_not_mem_escape _)]
      simp [chars]
    have hf : (fun q => front ++ chars q) ∘ (fun q => t :: q) =
        fun q => (front ++ '/' :: escape t.text) ++ chars q := by
      funext q
      simp [chars]
    have hc : front ++ chars (t :: p) = (front ++ '/' :: escape t.text) ++ chars p := by
      simp [chars]
    rw [ha, ← List.cons_append, hc, ih, List.inits_cons, List.map_cons, List.map_map, hf]
    simp [chars]

theorem climb_pointer (p : Path) :
    climb p.pointer.toList = (p.inits.map fun q => (Path.pointer q).toList).reverse := by
  rw [toList_pointer, climb]
  simpa only [List.nil_append, List.reverse_nil, toList_pointer] using cons_ancestors_eq p []

end Path

end Conform
