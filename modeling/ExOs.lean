import ExOs.Library.Buffers
import ExOs.Library.LinkedLists
import ExOs.Block.Mbr
import ExOs.Block.MbrRoundTrip
import ExOs.Mm.Kmalloc
import ExOs.Library.Tilings
import ExOs.Mm.HeapInvariant
import ExOs.Mm.HeapSafety
import ExOs.Library.Runs
import ExOs.Mm.HeapRuns
import ExOs.Block.BlockCache
import ExOs.Block.CacheCoherence
import ExOs.Block.Finestra
import ExOs.Block.CacheRuns
import ExOs.Ext4.Giornale
import ExOs.Ext4.GiornaleCodec
import ExOs.Ext4.GiornaleCommit
import ExOs.Ext4.GiornaleMount
import ExOs.Ext4.GiornaleCrash
import ExOs.Ext4.GiornaleRuns
import ExOs.Fs.Ext2Lettura
import ExOs.Fs.Ext2Percorsi
import ExOs.Ext4.GiornaleVista
import ExOs.Fs.PercorsiCoerenti
import ExOs.Boot.Rdlz4
import ExOs.Boot.Lz4Exos
import ExOs.Library.Counts
import ExOs.Library.ProbeTables
import ExOs.Mm.Pmm
import ExOs.Mm.PmmOltre
import ExOs.Mm.PmmProprietari
import ExOs.Mm.PmmInit
import ExOs.Mm.PmmRuns
import ExOs.Library.RingBuffers
import ExOs.Ipc.Attese
import ExOs.Ipc.Pipe
import ExOs.Ipc.PipeRuns
import ExOs.Ipc.Pty
import ExOs.Ipc.PtyRuns
import ExOs.Ipc.PtyUscita
import ExOs.Ipc.PtyRighe
import ExOs.Ipc.Nomi
import ExOs.Ipc.NomiRuns
import ExOs.Exbig.Interi
import ExOs.Exbig.Parole
import ExOs.Exbig.Prodotto
import ExOs.Exbig.Modexp
import ExOs.Exbig.Anello
import ExOs.Library.Sequence
import ExOs.Net.Ricezione
import ExOs.Net.RicezioneRuns
import ExOs.Net.Tcp
import ExOs.Net.TcpSpingi
import ExOs.Net.TcpInvio
import ExOs.Net.TcpFinestra
import ExOs.Net.TcpOrologio
import ExOs.Net.TcpInerti
import ExOs.Library.Tokens
import ExOs.Net.Ascolto
import ExOs.Net.AscoltoRuns
import ExOs.Net.AscoltoPassi
import ExOs.Net.TcpMosse
import ExOs.Libc.Heap
import ExOs.Libc.HeapForma
import ExOs.Libc.HeapBlocchi
import ExOs.Libc.HeapPassi
import ExOs.Libc.HeapChiamate
import ExOs.Libc.HeapAltre
import ExOs.Libc.HeapCorse
import ExOs.Exbig.Byte
import ExOs.Excert.Catene
import ExOs.Excert.NomiSito
import ExOs.Excert.FirmeRsa
import ExOs.Excert.Firme
import ExOs.Extls.Pss
import ExOs.Extar.Archivio
import ExOs.Extar.Estrazione
import ExOs.Exwifi.Supplicante
import ExOs.Libc.Calendario
import ExOs.Ipc.Scadenze
import ExOs.Mm.HeapSingole
import ExOs.Mm.Munmap
import ExOs.Fs.FatGeometria
import ExOs.Mm.PmmContigue
