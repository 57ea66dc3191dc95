import Esoterica.Piet.Codels

/-!
Pictures of a path: the program enlarged, with a mark in the reverse color on each visited codel.
-/

namespace Esoterica.Piet

/-- The pixels along the side of a codel. -/
def traceScale : Nat := 8

/-- The pixels between the edge of a codel and its mark. -/
def traceInset : Nat := 2

/-- The longest path that is drawn. -/
def traceLimit : Nat := 2000

/-- As many codels in pixels. The number has 64 bits and wraps around. -/
def scaled (count : Nat) : Nat :=
  count * traceScale % UInt64.size

/-- The sizes of the picture have no more than 64 bits. Where they have more, a host that checks its
arithmetic stops, and any other one draws a smaller picture. -/
def PictureFits (codels : Codels) : Prop :=
  codels.width * traceScale < UInt64.size ∧ codels.height * traceScale < UInt64.size

instance (codels : Codels) : Decidable (PictureFits codels) :=
  inferInstanceAs (Decidable (_ ∧ _))

/-- Paints a codel in its color. -/
def paintCodel (codels : Codels) (image : Image) (x y : Nat) : Image :=
  let color := (codels.get? ⟨x, y⟩).getD .white
  image.fillSquare (scaled x) (scaled y) traceScale color.toPixel

/-- Paints a mark on a codel; outside the program nothing happens. -/
def markCodel (codels : Codels) (image : Image) (codel : Codel) : Image :=
  match codels.get? codel with
  | none => image
  | some color =>
    image.fillSquare (scaled codel.x.toNat + traceInset) (scaled codel.y.toNat + traceInset)
      (traceScale - 2 * traceInset) color.toPixel.inverse

/-- The enlarged program. -/
def enlarge (codels : Codels) : Image :=
  (List.range codels.height).foldl
    (fun image y =>
      (List.range codels.width).foldl (fun image x => paintCodel codels image x y) image)
    (Image.filled (scaled codels.width) (scaled codels.height) .white)

/-- The enlarged program with its path. -/
def renderTrace (codels : Codels) (path : List Codel) : Image :=
  path.foldl (markCodel codels) (enlarge codels)

end Esoterica.Piet
