import Forth.SelfTest.Kernel
import Forth.SelfTest.Words
import Forth.SelfTest.Consoles
import Forth.SelfTest.Prompts

/-!
All the tests the program carries.
-/
namespace Forth.SelfTest

def collections : List Collection :=
  [Kernel.collection, Words.collection, Consoles.collection, Prompts.collection]

def collectionNames : List String := collections.map (·.name)

def runAll (names : List String) : List Result :=
  names.flatMap (runNamed collections)

end Forth.SelfTest
