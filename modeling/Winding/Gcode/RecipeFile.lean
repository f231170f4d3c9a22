import Winding.Files.Store
import Winding.Gcode.Recipe
import Winding.Text.Reported
import Winding.Text.Sha256

/-!
# Recipe files
-/

namespace Winding

/-- Why there is no recipe in a file. -/
inductive RecipeError (R : Type) where
  | file (error : FileError)
  | content (fault : RecipeFault R)
deriving Repr

variable {R : Type} [Scalar R]

/-- The error in words. -/
def RecipeError.message : RecipeError R → String
  | .file e => "File error: " ++ e.message
  | .content fault => fault.message

instance : Reported (RecipeError R) where
  code
    | .file e => "File." ++ Reported.code e
    | .content fault => Reported.code fault
  message := RecipeError.message

/-- The recipe that a sealed text holds; seals are SHA-256 digests. -/
def Recipe.ofText (text : String) : Except (RecipeError R) (Recipe R) :=
  (Recipe.read Sha256.hex text).mapError .content

/-- The recipe in a file. -/
def Recipe.load (files : FileStore) (path : String) : Except (RecipeError R) (Recipe R) :=
  match files.readText path with
  | .error e => .error (.file e)
  | .ok text => Recipe.ofText text

end Winding
