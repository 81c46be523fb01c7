/-
# Reports

A report counts what was done to one page or to several.  Reports of pages add
up to the report of a site.
-/

namespace DocHighlighter

/-- What was done to pages. -/
structure RenderReport where
  filesScanned : Int := 0
  filesChanged : Int := 0
  fragmentsClassified : Int := 0
  fragmentsSkipped : Int := 0
  blocksHighlighted : Int := 0
  copyButtons : Int := 0
  deriving DecidableEq

/-- A count that reports do not have. -/
structure UnknownCount where
  name : String

/-- The message about a count that reports do not have. -/
def UnknownCount.message (e : UnknownCount) : String :=
  "RenderReport.__init__() got an unexpected keyword argument '" ++ e.name ++ "'"

namespace RenderReport

/-- Sets the count of a name. -/
def set (r : RenderReport) (name : String) (n : Int) : Except UnknownCount RenderReport :=
  match name with
  | "files_scanned" => .ok { r with filesScanned := n }
  | "files_changed" => .ok { r with filesChanged := n }
  | "fragments_classified" => .ok { r with fragmentsClassified := n }
  | "fragments_skipped" => .ok { r with fragmentsSkipped := n }
  | "blocks_highlighted" => .ok { r with blocksHighlighted := n }
  | "copy_buttons" => .ok { r with copyButtons := n }
  | _ => .error ⟨name⟩

/-- The report with the given counts. -/
def ofCounts (counts : List (String × Int)) : Except UnknownCount RenderReport :=
  counts.foldlM (fun r c => r.set c.1 c.2) {}

/-- What was done in all. -/
def add (r s : RenderReport) : RenderReport where
  filesScanned := r.filesScanned + s.filesScanned
  filesChanged := r.filesChanged + s.filesChanged
  fragmentsClassified := r.fragmentsClassified + s.fragmentsClassified
  fragmentsSkipped := r.fragmentsSkipped + s.fragmentsSkipped
  blocksHighlighted := r.blocksHighlighted + s.blocksHighlighted
  copyButtons := r.copyButtons + s.copyButtons

instance : Add RenderReport := ⟨add⟩

/-- Whether the page is another one than before. -/
def showsChange (r : RenderReport) : Bool :=
  r.fragmentsClassified != 0 || r.blocksHighlighted != 0 || r.copyButtons != 0

end RenderReport
end DocHighlighter
