import BlockSketch.Workspace

namespace BlockSketch

inductive Edit where
  | insert (b : Block)
  | remove (id : String)
  | setField (id name : String) (v : FieldValue)
  | setMutation (id : String) (m : Mutation)
  | setEnabled (id : String) (on : Bool)
  | connect (parent : String) (s : Socket) (child : String)
  | disconnect (parent : String) (s : Socket)

inductive EditAnswer where
  | inserted (id : String)
  | removed (b : Block)
  | done
  | previous (id : Option String)

namespace Workspace

def edit (w : Workspace) : Edit → Except WorkspaceError (EditAnswer × Workspace)
  | .insert b => (w.insert b).map fun w' => (.inserted b.id, w')
  | .remove id => (w.remove id).map fun r => (.removed r.1, r.2)
  | .setField id name v => (w.setField id name v).map fun w' => (.done, w')
  | .setMutation id m => (w.setMutation id m).map fun w' => (.done, w')
  | .setEnabled id on => (w.setEnabled id on).map fun w' => (.done, w')
  | .connect parent s child => (w.connect parent s child).map fun r => (.previous r.1, r.2)
  | .disconnect parent s => (w.disconnect parent s).map fun r => (.previous r.1, r.2)

/-- The workspace after an edit; one that fails changes nothing. -/
def after (w : Workspace) (e : Edit) : Workspace :=
  match w.edit e with
  | .ok r => r.2
  | .error _ => w

/-- The workspace after a run of edits, failing ones included. -/
def run (w : Workspace) (es : List Edit) : Workspace := es.foldl after w

end Workspace

end BlockSketch
