import Kasane.Chain.Dated
import Kasane.Node.PruneFrame

namespace Kasane.Node

open BigEndian Codec Word Blob Chain Exec

variable {T : Type} {c : Crypto} {revm : Revm} {trie : TrieCommit T}

section Tick

variable {W : Type} {s : StableState W}

end Tick

end Kasane.Node
