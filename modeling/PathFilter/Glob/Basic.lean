import PathFilter.Glob.Alignment
import PathFilter.Glob.Options

/-!
Glob patterns over paths. Pattern and path are cut into components at `/` and `\`, which mean the
same everywhere; a pattern component that is exactly `**` takes any number of path components.

A compiled glob keeps its segments and two facts on its text: whether it begins with the root marker
and whether it begins with a separator. The options of a match widen the segments or narrow the path
before the two are aligned.
-/

set_option autoImplicit false
set_option relaxedAutoImplicit false

namespace PathFilter

def isSeparator (c : Char) : Bool := c == '/' || c == '\\'

/-- The components of a pattern or path, empty ones included. -/
def components (text : Text) : List Text := Text.cut isSeparator text

/-- The first path component that stands for the repository root. -/
def rootMarker : Text := ['@']

def atBoundary : Text → Bool
  | [] => true
  | c :: _ => isSeparator c

/-- What follows the root marker, if that is the whole first component. -/
def afterRoot? (text : Text) : Option Text := (Text.after? rootMarker text).filter atBoundary

def dropSeparator : Text → Text
  | [] => []
  | c :: rest => if isSeparator c then rest else c :: rest

/-- The path without its last separator; a path that ends in two different separators has none to
drop. -/
def dropLastSeparator? (path : Text) : Option Text :=
  match path.reverse with
  | [] => none
  | last :: before =>
    if !isSeparator last then none
    else
      match before with
      | [] => some []
      | previous :: _ =>
        if isSeparator previous && previous != last then none else some before.reverse

structure Glob where
  segments : List Segment
  /-- The first component is the root marker. -/
  rooted : Bool
  /-- The text begins with a separator. -/
  absolute : Bool
  deriving DecidableEq, Repr

namespace Glob

def segmentOf (component : Text) : Segment :=
  if component = ['*', '*'] then .anyDepth else .name component

def compile (pattern : Text) : Glob where
  segments := (components pattern).map segmentOf
  rooted := (afterRoot? pattern).isSome
  absolute := (pattern.head?.map isSeparator).getD false

/-- The path as seen from the repository root. A pattern that names the root sees the whole path; an
absolute pattern keeps the separator after the root marker. -/
def relativePath (glob : Glob) (path : Text) : Text :=
  if glob.rooted then path
  else
    match afterRoot? path with
    | none => path
    | some rest => if glob.absolute then rest else dropSeparator rest

/-- Segments that may begin at any component. -/
def fromAnywhere (segments : List Segment) : List Segment :=
  if segments.head? = some .anyDepth then segments else .anyDepth :: segments

/-- Segments that take everything below; `several` tells that an empty last segment stands for a
separator at the end of the pattern and not for an empty pattern. -/
def downward (several : Bool) (segments : List Segment) : List Segment :=
  let kept :=
    if several && segments.getLast? = some (.name []) then segments.dropLast else segments
  if kept.getLast? = some .anyDepth then kept else kept ++ [.anyDepth]

def steps (glob : Glob) (options : MatchOptions) : List Segment :=
  let leading := if options.anywhere then fromAnywhere glob.segments else glob.segments
  if options.belowFolders then downward (1 < glob.segments.length) leading else leading

def accepts (glob : Glob) (path : Text) (options : MatchOptions) : Bool :=
  let path := if options.repoRoot then glob.relativePath path else path
  let steps := glob.steps options
  Segment.tableAligns steps (components path) ||
    (options.trailingSeparator &&
      (dropLastSeparator? path).any fun shorter => Segment.tableAligns steps (components shorter))

end Glob

def patternAccepts (pattern path : Text) (options : MatchOptions) : Bool :=
  (Glob.compile pattern).accepts path options

/-- The same question where pattern or path may be missing: each missing one needs its option. -/
def patternAccepts? : Option Text → Option Text → MatchOptions → Bool
  | some pattern, some path, options => patternAccepts pattern path options
  | none, some _, options => options.missingPattern
  | some _, none, options => options.missingPath
  | none, none, options => options.missingPattern && options.missingPath

end PathFilter
