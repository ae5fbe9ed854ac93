import Confd.Go.Stdlib
import Confd.Go.Clean
import Confd.Afero.Fs
import Confd.Afero.Prog
import Confd.Afero.Helpers
import Confd.Afero.Logic
import Confd.Afero.Contract
import Confd.Afero.Hoare
import Confd.Afero.Interleave
import Confd.Afero.FastPath
import Confd.Util
import Confd.Template.Resource
import Confd.Verified.StagingStore
import Confd.Verified.StagedName
import Confd.Verified.Footprint
import Confd.Verified.Gate
import Confd.Verified.Totality
import Confd.Verified.Commit
import Confd.Verified.TemplateLoad
import Confd.Verified.NoHiddenState
import Confd.Verified.Idempotence
import Confd.Verified.Interference
import Confd.Verified.Cleanup
import Confd.Verified.KeySpace
import Confd.Verified.History
import Confd.Verified.ModeString
import Confd.Verified.Ownership
