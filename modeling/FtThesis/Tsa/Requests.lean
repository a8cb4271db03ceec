/-
The texts of the traffic steering application: requests and the keys of policy chains.

* `Str`: a text; `isSpace`, `isWord`: the classes `\s` and `\w`;
* `findall`: the matches of a pattern in a text, from left to right;
* `search`: the policy chain and the match fields of a request;
* `preparePolicyChainWithHostToSend`, `extractMatchFields`: what is read from them;
* `generatePolicyChainKey`, `getMatchFieldsFromKey`: the key of a policy chain, and the match
  fields that are read back from it.
-/
import Mathlib.Tactic
import Mathlib.Data.Char
import Mathlib.Data.List.Lex
import Mathlib.Data.List.Sort

namespace FtThesis.Tsa

/-- A text. -/
abbrev Str := List Char

/-- A match field of a request, with its value. -/
abbrev Field := Str × Str

/-! ### Classes of characters -/

/-- `\s`. -/
def isSpace (c : Char) : Bool := c = ' ' ∨ 9 ≤ c.toNat ∧ c.toNat ≤ 13

/-- `\w`. -/
def isWord (c : Char) : Bool := c.isAlphanum ∨ c = '_'

/-- The characters between the words of `split`. -/
def isUnicodeSpace (c : Char) : Bool :=
  isSpace c ∨ 28 ≤ c.toNat ∧ c.toNat ≤ 31 ∨ 8192 ≤ c.toNat ∧ c.toNat ≤ 8202 ∨
    c.toNat ∈ [133, 160, 5760, 6158, 8232, 8233, 8239, 8287, 12288]

/-- A text that `str` accepts. -/
def isAscii (t : Str) : Bool := t.all fun c => c.toNat < 128

/-! ### Methods of strings -/

/-- `strip`. -/
def strip (t : Str) : Str := ((t.dropWhile isSpace).reverse.dropWhile isSpace).reverse

/-- `split` without an argument. -/
def words (t : Str) : List Str := (t.splitOnP isUnicodeSpace).filter (· ≠ [])

/-- `",".join`. -/
def commas (ts : List Str) : Str := [','].intercalate ts

/-- One pass of `replace`, for a text that is not empty, where `skip` characters belong to the
last occurrence. -/
def replaceFrom (old new : Str) : ℕ → Str → Str
  | _, [] => []
  | skip + 1, _ :: t => replaceFrom old new skip t
  | 0, c :: t =>
      if old <+: c :: t then new ++ replaceFrom old new (old.length - 1) t
      else c :: replaceFrom old new 0 t

/-- `string.replace`. -/
def replace (t old new : Str) : Str :=
  if old = [] then t.flatMap (fun c => new ++ [c]) ++ new else replaceFrom old new 0 t

/-! ### Regular expressions -/

/-- `re.findall`, where `matchAt` gives what a match at the beginning of a text returns and the
text behind it.  There are at most `n` places to look at. -/
def findallFrom {β : Type} (matchAt : Str → Option (β × Str)) : ℕ → Str → List β
  | 0, _ => []
  | n + 1, t =>
      match matchAt t with
      | some (b, rest) => b :: findallFrom matchAt n rest
      | none =>
          match t with
          | [] => []
          | _ :: t => findallFrom matchAt n t

/-- `re.findall`. -/
def findall {β : Type} (matchAt : Str → Option (β × Str)) (t : Str) : List β :=
  findallFrom matchAt (t.length + 1) t

/-- `([\w]+[\s]*,[\s]*)*[\w]+` at the beginning of a text: the match, and the text behind it. -/
def matchChain : ℕ → Str → Option (Str × Str)
  | 0, _ => none
  | n + 1, t =>
      let (name, rest) := t.span isWord
      if name = [] then none
      else
        let (spaces, rest₁) := rest.span isSpace
        match rest₁ with
        | ',' :: rest₁ =>
            let (spaces₁, rest₁) := rest₁.span isSpace
            match matchChain n rest₁ with
            | some (chain, rest₁) => some (name ++ spaces ++ ',' :: spaces₁ ++ chain, rest₁)
            | none => some (name, rest)
        | _ => some (name, rest)

/-- The pattern of a request at the beginning of a text: its first and its third group. -/
def matchRequest (t : Str) : Option (Str × Str) :=
  match matchChain t.length t with
  | none => none
  | some (chain, rest) =>
      let (spaces, rest) := rest.span isSpace
      match rest with
      | '{' :: rest =>
          let (fields, rest) := rest.span (· ≠ '}')
          if spaces ≠ [] ∧ rest ≠ [] then some (chain, fields) else none
      | _ => none

/-- `re.search` with the pattern of a request. -/
def search (requestArgs : Str) : Option (Str × Str) := requestArgs.tails.findSome? matchRequest

/-- `[\s]*([^=\s]+)[\s]*=[\s]*([^\s,]+),?[\s]*` at the beginning of a text. -/
def matchField (t : Str) : Option (Field × Str) :=
  let (name, rest) := (t.dropWhile isSpace).span fun c => c ≠ '=' ∧ ¬ isSpace c
  if name = [] then none
  else
    match rest.dropWhile isSpace with
    | '=' :: rest =>
        let (value, rest) := (rest.dropWhile isSpace).span fun c => ¬ isSpace c ∧ c ≠ ','
        if value = [] then none
        else
          let rest := if rest.head? = some ',' then rest.tail else rest
          some ((name, value), rest.dropWhile isSpace)
    | _ => none

/-- `[\*]*([^=\s:]+)[\s]*:[\s]*([^\s\*]+)` at the beginning of a text.  If there is nothing but
stars in front of the colon, the last one is the name. -/
def matchKeyField (t : Str) : Option (Field × Str) :=
  let (stars, rest) := t.span (· = '*')
  let (name, rest) := rest.span fun c => c ≠ '=' ∧ ¬ isSpace c ∧ c ≠ ':'
  let name := if name = [] ∧ stars ≠ [] then ['*'] else name
  if name = [] then none
  else
    match rest.dropWhile isSpace with
    | ':' :: rest =>
        let (value, rest) := (rest.dropWhile isSpace).span fun c => ¬ isSpace c ∧ c ≠ '*'
        if value = [] then none else some ((name, value), rest)
    | _ => none

/-! ### Requests -/

/-- `preparePolicyChainWithHostToSend`: the sender, and the middleboxes of the chain. -/
def preparePolicyChainWithHostToSend (policyChain : Str) : Str × Str :=
  let splittedPolicyChain := (policyChain.splitOn ',').map strip
  (splittedPolicyChain.headD [], commas splittedPolicyChain.tail)

/-- `extractMatchFields`. -/
def extractMatchFields (fields : Str) : List Field := findall matchField fields

/-- The order of match fields: by their names, then by their values. -/
def FieldLe (a b : Field) : Prop := a.1 < b.1 ∨ a.1 = b.1 ∧ a.2 ≤ b.2

instance : DecidableRel FieldLe := fun _ _ => inferInstanceAs (Decidable (_ ∨ _ ∧ _))

/-- `matchFields.sort()`. -/
def sortFields (matchFields : List Field) : List Field := matchFields.insertionSort FieldLe

/-- The text of a match field in a key. -/
def fieldText (field : Field) : Str := field.1 ++ ':' :: field.2

/-- The text of match fields in a key. -/
def fieldsText (matchFields : List Field) : Str := ['*'].intercalate (matchFields.map fieldText)

/-- `generatePolicyChainKey`.  Without match fields there is no key. -/
def generatePolicyChainKey (senderHost preparedPolicyChain : Str) (matchFields : List Field) :
    Option Str :=
  if matchFields = [] then none
  else some (senderHost ++ '$' :: (preparedPolicyChain ++ '$' ::
    fieldsText (sortFields matchFields)))

/-- `getMatchFieldsFromKey`. -/
def getMatchFieldsFromKey (policyChainKey : Str) : Option (List Field) :=
  (policyChainKey.splitOn '$')[2]?.map (findall matchKeyField)

/-- The part of a key with the match fields is there. -/
lemma exists_getMatchFieldsFromKey {senderHost policyChain : Str} {matchFields : List Field}
    {key : Str} (h : generatePolicyChainKey senderHost policyChain matchFields = some key) :
    ∃ fields, getMatchFieldsFromKey key = some fields := by
  rw [generatePolicyChainKey] at h
  split_ifs at h
  obtain rfl := Option.some.inj h
  have hpos : ∀ t : Str, 0 < (t.splitOn '$').length := fun t =>
    List.length_pos_of_ne_nil (List.splitOn_ne_nil '$' t)
  have hsender := hpos senderHost
  have hchain := hpos policyChain
  have hfields := hpos (fieldsText (sortFields matchFields))
  refine ⟨_, Option.map_eq_some_iff.mpr ⟨_, List.getElem?_eq_getElem ?_, rfl⟩⟩
  simp only [List.splitOn_append_cons_self, List.length_append]
  omega

end FtThesis.Tsa
