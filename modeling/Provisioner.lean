import Provisioner.Text
import Provisioner.Values
import Provisioner.SWUpgrade
import Provisioner.Ipaddress
import Provisioner.Validation
import Provisioner.ParamGroup
import Provisioner.Pillar
import Provisioner.DictItem
import Provisioner.Pathlib
import Provisioner.RepoSource
import Provisioner.Attrs
import Provisioner.Argparse
import Provisioner.ParserFiller
import Provisioner.ParserRoundTrip
import Provisioner.ComponentCfg
