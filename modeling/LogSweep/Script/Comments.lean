-- Comments in the tree. The rules read past comments; afterwards each comment becomes a child
-- of the innermost node whose span holds it.
import LogSweep.Script.Cursor
import LogSweep.ParseTree

namespace LogSweep.Script

def Comment.node (k : Comment) : ParseTree :=
  .make { kind := if k.markup then "html_comment" else "comment", span := k.span } []

mutual

/-- Puts comments, in source order and all inside the node, into the node. -/
def placeComments : ParseTree → List Comment → ParseTree
  | .name l h, _ => .name l h
  | .node l h cs, ks => .node l h (placeAmong cs ks)

/-- Puts comments among the children of a node: between two children, or inside one. -/
def placeAmong : List ParseTree → List Comment → List ParseTree
  | [], ks => ks.map Comment.node
  | t :: ts, ks =>
    let before := ks.takeWhile (fun k => k.span.stop ≤ t.span.start)
    let rest := ks.drop before.length
    let inside := rest.takeWhile (fun k => t.span.contains k.span)
    before.map Comment.node ++
      ((if inside.isEmpty then t else placeComments t inside) ::
        placeAmong ts (rest.drop inside.length))

end

end LogSweep.Script
