import PhpOutline.Graph
import PhpOutline.Report.Human

/-!
# Token listings

One line for each token: index, kind, line, quoted text and links, in columns.
-/

namespace PhpOutline.Report

def padLeft (width : Nat) (s : String) : String :=
  .ofList (List.replicate (width - s.length) ' ') ++ s

def padRight (width : Nat) (s : String) : String :=
  s ++ .ofList (List.replicate (width - s.length) ' ')

/-- The links that are set. -/
def links (n : Node) : String :=
  let one (label : String) (link : Option Nat) := link.toList.map fun i => s!"{label}={i}"
  " ".intercalate (one "prev_code" n.prevCode ++ one "next_code" n.nextCode ++
    one "parent" n.parent ++ one "opened_by" n.openedBy ++ one "closed_by" n.closedBy)

def tokenLine (n : Node) : String :=
  padLeft 5 (toString n.index) ++ "  " ++ padRight 26 n.kind.label ++ " " ++
    padLeft 4 (toString n.line) ++ "  " ++ padRight 24 (Text.quoted n.text) ++ " " ++ links n

def tokens (g : Graph) : String := unlines (g.nodes.toList.map tokenLine)

end PhpOutline.Report
