import Soundstage.Asset.Digest

/-!
# Asset keys

An asset is identified by what it is for and by the text it is generated from. Its file name is a
function of the text alone: a readable fragment and a digest, which keeps apart texts that share a
fragment.
-/

namespace Soundstage

/-- What an asset is for. Each role has a folder of its own. -/
inductive Role where
  | voice
  | sound
  deriving DecidableEq, Repr

/-- The name of a role and of its folder. -/
def Role.name : Role → String
  | voice => "voice"
  | sound => "sound"

/-- The role with a name. -/
def Role.ofName? (name : String) : Option Role :=
  [Role.voice, Role.sound].find? (·.name = name)

/-- The identity of an asset. -/
structure AssetKey where
  role : Role
  text : String
  deriving DecidableEq, Repr

namespace AssetKey

/-- The length at which a fragment takes no further characters. -/
def fragmentLimit : Nat := 40

/-- Whether a character is kept in fragments: ASCII letters and digits are. -/
def isKept (c : Char) : Bool := c.isAlphanum

/-- Extends a fragment, given backwards, by the characters of a text. A run of characters that are
not kept becomes one dash, which is only written together with the character that follows it;
`pending` says that such a run has just been passed. The text is abandoned once the fragment has
reached the limit. -/
def extendFragment (fragment : List Char) (pending : Bool) : List Char → List Char
  | [] => fragment
  | c :: rest =>
    if fragmentLimit ≤ fragment.length then fragment
    else if isKept c then
      let fragment := if pending && !fragment.isEmpty then '-' :: fragment else fragment
      extendFragment (c.toLower :: fragment) false rest
    else extendFragment fragment true rest

/-- The readable part of a file name. -/
def fragment (text : String) : List Char :=
  match extendFragment [] false text.toList with
  | [] => "asset".toList
  | fragment => fragment.reverse

/-- The name of the file that holds an asset. -/
def fileName (key : AssetKey) (extension : String) : String :=
  String.ofList (fragment key.text ++ '_' :: Digest.leading key.text) ++ "." ++ extension

/-- The path of that file below the folder that holds all assets. -/
def relativePath (key : AssetKey) (extension : String) : String :=
  key.role.name ++ "/" ++ key.fileName extension

/-- How a key is named in messages. -/
def label (key : AssetKey) : String := key.role.name ++ ":" ++ key.text

end AssetKey

end Soundstage
