import XmlRecords.Text.Hexadecimal

/-!
Where a reference to a resource leads: a relative reference is taken from the directory of the
resource that makes it, and the dot segments are worked out on the text of the path.
-/

set_option autoImplicit false
set_option relaxedAutoImplicit false

namespace XmlRecords.Xml.Location

/-- Holds of the characters that stand for themselves in the paths of references. -/
def isPathChar (c : Char) : Bool := c.isAlphanum || "-._~!$&'()*+,;=:@/".contains c

/-- Holds of texts in which every character may stand or is written by its code. -/
def isEncoded (isAllowed : Char → Bool) : List Char → Bool
  | '%' :: a :: b :: cs =>
    (Text.hexValue? a).isSome && (Text.hexValue? b).isSome && isEncoded isAllowed cs
  | c :: cs => c != '%' && isAllowed c && isEncoded isAllowed cs
  | [] => true

def isScheme : List Char → Bool
  | c :: cs => c.isAlpha && cs.all fun c => c.isAlphanum || c == '+' || c == '-' || c == '.'
  | [] => false

/-- Holds of the form that references to resources have: a path with a query and a fragment behind
it. A colon in the first segment ends a scheme. -/
def isReference (reference : String) : Bool :=
  let cs := reference.toList
  let resource := cs.takeWhile (· != '#')
  let fragment := cs.drop (resource.length + 1)
  let path := resource.takeWhile (· != '?')
  let query := resource.drop path.length
  let first := path.takeWhile (· != '/')
  isEncoded isPathChar path && isEncoded (fun c => isPathChar c || c == '?') query &&
    isEncoded (fun c => isPathChar c || c == '?' || c == '[' || c == ']') fragment &&
    (!first.contains ':' || isScheme (first.takeWhile (· != ':')))

def segments (path : String) : List String := (path.toList.splitOn '/').map String.ofList

/-- Holds of references that name a scheme, such as `http:`. -/
def hasScheme (reference : String) : Bool :=
  let start := reference.toList.takeWhile fun c => c.isAlphanum || c == '+' || c == '-' || c == '.'
  start.length > 1 && (reference.toList.drop start.length).head? == some ':'

/-- Works out the segments `.` and `..`; `done` holds the segments before, last first. -/
def normalize : (done : List String) → List String → List String
  | done, [] => done.reverse
  | done, "." :: rest => normalize (if rest.isEmpty then "" :: done else done) rest
  | done, ".." :: rest =>
    match done with
    | [] => normalize [".."] rest
    | ".." :: _ => normalize (".." :: done) rest
    | _ :: outer => normalize (if rest.isEmpty then "" :: outer else outer) rest
  | done, segment :: rest => normalize (segment :: done) rest

def directory (path : String) : List String := (segments path).dropLast

/-- The path a reference leads to from a resource, or from nowhere. -/
def resolve (base : Option String) (reference : String) : String :=
  match base with
  | none => reference
  | some base =>
    if reference.isEmpty then base
    else if reference.toList.head? == some '/' || hasScheme reference then reference
    else "/".intercalate (normalize [] (directory base ++ segments reference))

def dropShared : List String → List String → List String × List String
  | a :: as, b :: bs => if a = b then dropShared as bs else (a :: as, b :: bs)
  | as, bs => (as, bs)

def relative (base : Option String) (path : String) : String :=
  match base with
  | none => path
  | some base =>
    let (up, down) := dropShared (directory base) (directory path)
    let name := ((segments path).getLast?).getD ""
    "/".intercalate (up.map (fun _ => "..") ++ down ++ [name])

end XmlRecords.Xml.Location
